import IdlFrontEnd.Proofs.Grammar.Member

/-!
# Declarations and files as derived

A broken member or declaration is passed over, but never without a report. So a file that is read
in silence was read whole: each loop took its items one after the other and stopped where only the
brace or the end of the file can stand.
-/
namespace IdlFrontEnd

theorem Declaration.mapTypes_annotate (f : TypeExpr → TypeExpr) (d : Declaration)
    (set : AnnotationSet) : (d.annotate set).mapTypes f = (d.mapTypes f).annotate set := by
  obtain ⟨header, body⟩ := d
  cases body <;> rfl

namespace Grammar

def Item.unplaced : Item → Item
  | .importing statement => .importing statement
  | .declaring d => .declaring (d.mapTypes .unplaced)

/-- The file without the places and comments that types in it have of their own. -/
def SourceFile.unplaced (file : SourceFile) : SourceFile :=
  { file with types := file.types.map (Declaration.mapTypes .unplaced) }

/-- `item* '}'` -/
inductive Closed {α : Type} (D : List Lexeme → α → Prop) : List Lexeme → List α → Prop
  | mk {ls : List Lexeme} {right : Lexeme} {as : List α} (all : Many D ls as)
      (closing : right.token = .mark .closeBrace) : Closed D (ls ++ [right]) as

/-! ## Soundness -/

theorem attempt_sound {α : Type} {D : List Lexeme → α → Prop} {item : Rule α}
    (recover : List Lexeme → List Lexeme) (sound : Sound D item) :
    Sound (fun ls o => ∃ a, o = some a ∧ D ls a) (attempt recover item) := by
  intro r o next h silent
  unfold attempt at h
  cases hitem : item r with
  | ok a last =>
    rw [hitem] at h
    cases h
    obtain ⟨ls, took, derived⟩ := sound r a next hitem silent
    exact ⟨ls, took, a, rfl, derived⟩
  | error e last =>
    rw [hitem] at h
    cases h
    simp [Reading.report] at silent

theorem some_inhabited {α : Type} {D : List Lexeme → α → Prop} (inhabited : Inhabited D) :
    Inhabited fun ls o => ∃ a, o = some a ∧ D ls a := by
  rintro ls _ ⟨a, -, derived⟩
  exact inhabited ls a derived

theorem toRule_eq_ok {α : Type} {rule : Total α} {r next : Reading} {a : α} :
    rule.toRule r = .ok a next ↔ rule r = .ok a next := by
  unfold Total.toRule
  cases h : rule r with
  | ok => simp
  | error e => cases e

theorem body_sound {α : Type} {D : List Lexeme → α → Prop} {item : Rule α}
    (inhabited : Inhabited D) (sound : Sound D item) : Sound (Closed D) (body item) := by
  intro r as next h silent
  obtain ⟨found, mid, hfound, h⟩ := bind_eq_ok.1 h
  obtain ⟨_, last, hright, h⟩ := bind_eq_ok.1 h
  cases h
  obtain ⟨right, closing, tookRight⟩ := expect_sound (by decide) hright
  obtain ⟨ls, took, derived⟩ :=
    manyWhile_sound (some_inhabited inhabited)
      (fun r a next _ => attempt_sound afterMember sound r a next) r found mid
      (toRule_eq_ok.1 hfound) (tookRight.notes.symm.trans silent)
  obtain ⟨items, rfl, all⟩ := many_some_iff.1 derived
  have whole : List.filterMap id (items.map some) = items := by simp
  exact ⟨_, took.trans tookRight, by rw [whole]; exact .mk all closing⟩

/-- For a declaration that starts at `first`, whatever stood before the keyword. -/
theorem parcelable_sound {first : Lexeme} {package : List String} {r next : Reading}
    {d : Declaration} (h : parcelable first package r = .ok d next) (silent : next.notes = []) :
    ∃ ls, Took r ls next ∧ ls ≠ [] ∧ ∀ all, first.location.upTo next.previous = span all →
      first.comments = leadComments all → IsBody package all ls d := by
  obtain ⟨_, afterWord, hword, h⟩ := bind_eq_ok.1 h
  obtain ⟨word, opening, tookWord⟩ := expect_sound (by decide) hword
  obtain ⟨name, afterName, hname, h⟩ := bind_eq_ok.1 h
  obtain ⟨isPlain, afterSemi, hsemi, hplain⟩ := bind_eq_ok.1 h
  rcases accept_sound (by decide) hsemi with ⟨rfl, semi, closing, tookSemi⟩ | ⟨rfl, rfl⟩
  · cases hplain
    obtain ⟨ns, tookName, terms, isName, rfl⟩ :=
      qualifiedNameWith_sound _ _ _ _ hname (tookSemi.notes.symm.trans silent)
    refine ⟨_, tookWord.cons (tookName.trans tookSemi), by simp, ?_⟩
    intro all place comments
    rw [place, comments]
    exact .parcelable opening isName closing
  obtain ⟨isHeader, afterMark, hmark, hheader⟩ := bind_eq_ok.1 hplain
  rcases accept_sound (by decide) hmark with ⟨rfl, keyword, mark, tookMark⟩ | ⟨rfl, rfl⟩
  · obtain ⟨seen, _, hseen, hpathRest⟩ := bind_eq_ok.1 hheader
    cases hseen
    cases hpath : afterMark.token with
    | string quoted =>
      rw [hpath] at hpathRest
      obtain ⟨_, afterPath, htake, hpathRest⟩ := bind_eq_ok.1 hpathRest
      cases htake
      obtain ⟨_, last, hlast, hpathRest⟩ := bind_eq_ok.1 hpathRest
      cases hpathRest
      obtain ⟨l, hl, tookPath⟩ := Took.take (r := afterMark) (by simp [hpath])
      obtain ⟨semi, closing, tookSemi⟩ := expect_sound (by decide) hlast
      have tookRest := tookMark.cons (tookPath.cons tookSemi)
      obtain ⟨ns, tookName, terms, isName, rfl⟩ :=
        qualifiedNameWith_sound _ _ _ _ hname (tookRest.notes.symm.trans silent)
      refine ⟨_, tookWord.cons (tookName.trans tookRest), by simp, ?_⟩
      intro all place comments
      rw [place, comments]
      exact .header opening isName mark (hl.trans hpath) closing
    | word | number | mark | eof =>
      rw [hpath] at hpathRest
      cases hpathRest
  obtain ⟨isStructured, afterBrace, hbrace, hstructured⟩ := bind_eq_ok.1 hheader
  rcases accept_sound (by decide) hbrace with ⟨rfl, left, brace, tookBrace⟩ | ⟨rfl, rfl⟩
  · obtain ⟨fields, last, hfields, hstructured⟩ := bind_eq_ok.1 hstructured
    cases hstructured
    obtain ⟨_, tookFields, ⟨all, closing⟩⟩ :=
      body_sound field_inhabited field_sound _ _ _ hfields silent
    have tookRest := tookBrace.cons tookFields
    obtain ⟨ns, tookName, terms, isName, rfl⟩ :=
      qualifiedNameWith_sound _ _ _ _ hname (tookRest.notes.symm.trans silent)
    refine ⟨_, tookWord.cons (tookName.trans tookRest), by simp, ?_⟩
    intro whole place comments
    rw [place, comments]
    exact .structured opening isName brace all closing
  · cases hstructured

theorem interface_sound {first : Lexeme} {package : List String} {r next : Reading}
    {d : Declaration} (h : interface first package r = .ok d next) (silent : next.notes = []) :
    ∃ ls, Took r ls next ∧ ls ≠ [] ∧ ∀ all, first.location.upTo next.previous = span all →
      first.comments = leadComments all → IsBody package all ls d := by
  obtain ⟨b, afterOneway, honeway, h⟩ := bind_eq_ok.1 h
  obtain ⟨_, afterWord, hword, h⟩ := bind_eq_ok.1 h
  obtain ⟨n, afterName, hname, h⟩ := bind_eq_ok.1 h
  obtain ⟨_, afterBrace, hbrace, h⟩ := bind_eq_ok.1 h
  obtain ⟨members, last, hmembers, h⟩ := bind_eq_ok.1 h
  cases h
  obtain ⟨_, tookMembers, ⟨all, closing⟩⟩ :=
    body_sound member_inhabited member_sound _ _ _ hmembers silent
  obtain ⟨left, brace, tookBrace⟩ := expect_sound (by decide) hbrace
  have tookRest := tookBrace.cons tookMembers
  obtain ⟨ns, tookName, name⟩ :=
    identifier_sound _ _ _ hname (tookRest.notes.symm.trans silent)
  obtain ⟨word, opening, tookWord⟩ := expect_sound (by decide) hword
  obtain ⟨os, tookOneway, oneway⟩ := oneway_sound honeway
  refine ⟨_, tookOneway.trans (tookWord.cons (tookName.trans tookRest)), by simp, ?_⟩
  intro whole place comments
  rw [place, comments]
  exact .interface oneway opening name brace all closing

theorem body_nonempty {package : List String} {all ls : List Lexeme} {d : Declaration}
    (derived : IsBody package all ls d) : ls ≠ [] := by
  cases derived <;> simp

theorem declaration_inhabited {package : List String} : Inhabited (IsDeclaration package) := by
  rintro _ _ ⟨rfl, _, body⟩
  simp [body_nonempty body]

theorem declaration_sound (package : List String) :
    Sound (IsDeclaration package) (declaration package) := by
  intro r d next h silent
  obtain ⟨start, mid, hstart, h⟩ := bind_eq_ok.1 h
  cases hstart
  obtain ⟨set, afterSet, hset, h⟩ := bind_eq_ok.1 h
  obtain ⟨seen, mid, hseen, h⟩ := bind_eq_ok.1 h
  cases hseen
  -- both kinds of bodies are found by the same argument from here on
  have finish (declared : Declaration) (last : Reading)
      (hbody : ∃ ls, Took afterSet ls last ∧ ls ≠ [] ∧
        ∀ all, r.current.location.upTo last.previous = span all →
          r.current.comments = leadComments all → IsBody package all ls declared)
      (silent : last.notes = []) :
      ∃ ls, Took r ls last ∧ IsDeclaration package ls (declared.annotate set) := by
    obtain ⟨bs, tookBody, nonempty, body⟩ := hbody
    obtain ⟨as, tookSet, annotations⟩ :=
      annotations_sound _ _ _ hset (tookBody.notes.symm.trans silent)
    have took := tookSet.trans tookBody
    have some : as ++ bs ≠ [] := List.append_ne_nil_of_right_ne_nil as nonempty
    exact ⟨_, took, .mk rfl annotations (body _ (took.span some) (took.comments some))⟩
  split at h
  · obtain ⟨declared, last, hbody, h⟩ := bind_eq_ok.1 h
    cases h
    exact finish declared next (parcelable_sound hbody silent) silent
  · split at h
    · obtain ⟨declared, last, hbody, h⟩ := bind_eq_ok.1 h
      cases h
      exact finish declared next (interface_sound hbody silent) silent
    · obtain ⟨declared, last, hbody, h⟩ := bind_eq_ok.1 h
      cases hbody

theorem packageStatement_sound :
    Sound (fun ls n => IsPackage ls (some n)) packageStatement := by
  intro r n next h silent
  obtain ⟨_, afterWord, hword, h⟩ := bind_eq_ok.1 h
  obtain ⟨name, afterName, hname, h⟩ := bind_eq_ok.1 h
  obtain ⟨_, last, hsemi, h⟩ := bind_eq_ok.1 h
  cases h
  obtain ⟨semi, closing, tookSemi⟩ := expect_sound (by decide) hsemi
  obtain ⟨ns, tookName, terms, isName, rfl⟩ :=
    qualifiedName_sound _ _ _ hname (tookSemi.notes.symm.trans silent)
  obtain ⟨word, opening, tookWord⟩ := expect_sound (by decide) hword
  exact ⟨_, tookWord.cons (tookName.trans tookSemi), .present opening isName closing⟩

theorem packageClause_sound : Sound IsPackage packageClause := by
  intro r package next h silent
  unfold packageClause at h
  split at h
  · obtain ⟨ls, took, name, rfl, derived⟩ :=
      attempt_sound afterDeclaration packageStatement_sound r package next h silent
    exact ⟨ls, took, derived⟩
  · cases h
    exact ⟨[], .refl _, .absent⟩

theorem item_inhabited {package : List String} : Inhabited (IsItem package) := by
  rintro _ _ (⟨rfl, _, _, _⟩ | derived)
  · simp
  · exact declaration_inhabited _ _ derived

theorem item_sound (package : List String) : Sound (IsItem package) (item package) := by
  intro r found next h silent
  obtain ⟨seen, mid, hseen, h⟩ := bind_eq_ok.1 h
  cases hseen
  split at h
  · obtain ⟨statement, last, himport, h⟩ := bind_eq_ok.1 h
    cases h
    obtain ⟨start, mid, hstart, himport⟩ := bind_eq_ok.1 himport
    cases hstart
    obtain ⟨_, afterWord, hword, himport⟩ := bind_eq_ok.1 himport
    obtain ⟨name, afterName, hname, himport⟩ := bind_eq_ok.1 himport
    obtain ⟨_, last, hsemi, himport⟩ := bind_eq_ok.1 himport
    cases himport
    obtain ⟨semi, closing, tookSemi⟩ := expect_sound (by decide) hsemi
    obtain ⟨ns, tookName, terms, isName, rfl⟩ :=
      qualifiedName_sound _ _ _ hname (tookSemi.notes.symm.trans silent)
    obtain ⟨word, opening, tookWord⟩ := expect_sound (by decide) hword
    have took := tookWord.cons (tookName.trans tookSemi)
    have derived : IsItem package _ _ := .importing rfl opening isName closing
    rw [← took.span (item_inhabited _ _ derived)] at derived
    exact ⟨_, took, derived⟩
  · obtain ⟨d, last, hdeclaration, h⟩ := bind_eq_ok.1 h
    cases h
    obtain ⟨ls, took, derived⟩ := declaration_sound package _ _ _ hdeclaration silent
    exact ⟨ls, took, .declaring derived⟩

/-- A file that is read in silence is read up to the end. -/
theorem sourceFile_sound {r next : Reading} {file : SourceFile}
    (h : sourceFile r = .ok file next) (silent : next.notes = []) :
    (∃ ls, Took r ls next ∧ IsFile ls file) ∧ next.token = .eof := by
  obtain ⟨package, mid, hpackage, h⟩ := bind_eq_ok.1 h
  obtain ⟨found, last, hfound, h⟩ := bind_eq_ok.1 h
  cases h
  obtain ⟨⟨ls, tookItems, derived⟩, ended⟩ :=
    manyWhile_ends (some_inhabited item_inhabited)
      (fun r a next _ => attempt_sound afterDeclaration (item_sound _) r a next) hfound silent
  obtain ⟨items, rfl, all⟩ := many_some_iff.1 derived
  have whole : List.filterMap id (items.map some) = items := by simp
  obtain ⟨ps, tookPackage, opening⟩ :=
    packageClause_sound _ _ _ hpackage (tookItems.notes.symm.trans silent)
  refine ⟨⟨ps ++ ls, tookPackage.trans tookItems, ?_⟩, by simpa using ended⟩
  rw [whole]
  exact .mk opening all

/-! ## Completeness -/

theorem attempt_complete {α β : Type} {view : α → β} {D : List Lexeme → α → Prop}
    {follow : Token → Prop} {item : Rule α} (recover : List Lexeme → List Lexeme)
    (complete : Complete view D follow item) :
    Complete (Option.map view) (fun ls o => ∃ a, o = some a ∧ D ls a) follow
      (attempt recover item) := by
  rintro ls _ rest previous notes ⟨a, rfl, derived⟩ fit
  obtain ⟨b, hitem, alike⟩ := complete ls a rest previous notes derived fit
  refine ⟨some b, ?_, congrArg some alike⟩
  unfold attempt
  rw [hitem]

/-- To pick some out and to change each of them may be done in either order. -/
theorem map_filterMap_comm {α α' β β' : Type} {pick : α → Option β} {pick' : α' → Option β'}
    {f : β → β'} {g : α → α'} (same : ∀ a, (pick a).map f = pick' (g a)) (as : List α) :
    (as.filterMap pick).map f = (as.map g).filterMap pick' := by
  rw [List.map_filterMap, List.filterMap_map]
  exact congrArg (List.filterMap · as) (funext same)

theorem map_filterMap_id {α β : Type} (view : α → β) (os : List (Option α)) :
    (os.filterMap id).map view = (os.map (Option.map view)).filterMap id := by
  have same (o : Option α) : (id o).map view = id (o.map view) := rfl
  exact map_filterMap_comm same os

theorem body_complete {α β : Type} {view : α → β} {D : List Lexeme → α → Prop} {item : Rule α}
    (inhabited : Inhabited D) (complete : Complete view D (fun _ => True) item)
    (opens : ∀ ls a rest, D ls a → OpensPhrase (nextToken (ls ++ rest))) :
    Complete (List.map view) (Closed D) (fun _ => True) (body item) := by
  rintro _ as rest previous notes ⟨all, closing⟩ -
  rename_i ls right
  have loop : Complete (List.map (Option.map view)) (Many fun ls o => ∃ a, o = some a ∧ D ls a)
      (fun t => True ∧ (t ≠ .mark .closeBrace && t ≠ .eof) = false)
      (manyWhile (fun t => t ≠ .mark .closeBrace && t ≠ .eof) (attempt afterMember item)) := by
    refine manyWhile_complete (some_inhabited inhabited) (attempt_complete afterMember complete) ?_
    rintro ls _ rest ⟨a, -, derived⟩
    have start := opens ls a rest derived
    simp [start.ne_mark (show Mark.at ≠ .closeBrace by decide), start.ne_eof]
  obtain ⟨found, hfound, alike⟩ := loop ls (as.map some) (right :: rest) previous notes
    (many_some_iff.2 ⟨as, rfl, all⟩) (by simp [nextToken, closing])
  refine ⟨found.filterMap id, ?_, ?_⟩
  · unfold body
    rw [List.append_assoc, List.singleton_append, bind_of_ok (toRule_eq_ok.2 hfound),
      bind_of_ok (expect_present closing), lastPlace_append]
    rfl
  · rw [map_filterMap_id, alike, ← map_filterMap_id]
    simp

theorem field_opens {ls : List Lexeme} {f : Field} (derived : IsField ls f) (rest : List Lexeme) :
    OpensPhrase (nextToken (ls ++ rest)) := by
  obtain ⟨rfl, type, _, _, _⟩ := derived
  rw [List.append_assoc]
  exact type_opens type _

theorem member_opens {ls : List Lexeme} {m : Member} (derived : IsMember ls m)
    (rest : List Lexeme) : OpensPhrase (nextToken (ls ++ rest)) := by
  rcases derived with constant | method
  · obtain ⟨rfl, opening, _, _, _, _, _⟩ := constant
    right
    simp [nextToken, opening]
  · rcases method_starts method rest with start | ⟨text, -, start⟩
    · exact .inl start
    · exact .inr ⟨text, start⟩

/-- A body opens with the keyword that the rule for it is chosen by. -/
theorem body_starts {package : List String} {all bs : List Lexeme} {d : Declaration}
    (derived : IsBody package all bs d) (rest : List Lexeme) :
    nextToken (bs ++ rest) = .word "parcelable" ∨ nextToken (bs ++ rest) = .word "interface" ∨
      nextToken (bs ++ rest) = .word "oneway" := by
  cases derived with
  | parcelable opening _ _ | header opening _ _ _ _ | structured opening _ _ _ _ =>
    left
    simp [nextToken, opening]
  | interface oneway opening _ _ _ _ =>
    cases oneway with
    | absent => simp [nextToken, opening]
    | present word => simp [nextToken, word]

/-- A structured parcelable, whatever is made of the lexemes in its braces. -/
theorem parcelable_of_body {first : Lexeme} {package : List String} {word left : Lexeme}
    {ns more rest : List Lexeme} {terms : List String} {fs : List Field}
    {previous place : Location} {notes told : List Diagnostic}
    (opening : word.token = .word "parcelable") (name : IsName ns terms)
    (brace : left.token = .mark .openBrace)
    (hbody : body field ⟨more, left.location, notes⟩ = .ok fs ⟨rest, place, told⟩) :
    parcelable first package ⟨word :: (ns ++ left :: more), previous, notes⟩ =
      .ok (.ofFields (first.location.upTo place) ⟨span ns, terms, first.comments⟩ package fs)
        ⟨rest, place, told⟩ := by
  have hname := (qualifiedNameWith_complete first.comments).exact (left :: more) word.location
    notes ⟨terms, name, rfl⟩ (by simp [nextToken, brace])
  have notSemi : nextToken (left :: more) ≠ .mark .semicolon := by simp [nextToken, brace]
  have notMark : nextToken (left :: more) ≠ .word "cpp_header" := by simp [nextToken, brace]
  unfold parcelable
  rw [bind_of_ok (expect_present opening), bind_of_ok hname, bind_of_ok (accept_absent notSemi),
    if_neg Bool.false_ne_true, bind_of_ok (accept_absent notMark), if_neg Bool.false_ne_true,
    bind_of_ok (accept_present brace), if_pos rfl, bind_of_ok hbody, spanFrom_bind]
  rfl

theorem parcelable_of_front {first : Lexeme} {package : List String} {all bs rest : List Lexeme}
    {d : Declaration} {previous : Location} {notes : List Diagnostic}
    (derived : IsBody package all bs d) (start : nextToken (bs ++ rest) = .word "parcelable")
    (place : first.location.upTo (lastPlace previous bs) = span all)
    (comments : first.comments = leadComments all) :
    parcelable first package ⟨bs ++ rest, previous, notes⟩ =
      .ok d ⟨rest, lastPlace previous bs, notes⟩ := by
  cases derived with
  | @parcelable word semi ns terms opening name closing =>
    have hname := (qualifiedNameWith_complete (leadComments all)).exact (semi :: rest)
      word.location notes ⟨terms, name, rfl⟩ (by simp [nextToken, closing])
    simp only [List.cons_append, List.append_assoc, List.nil_append, lastPlace,
      lastPlace_append] at place ⊢
    unfold parcelable
    rw [comments, bind_of_ok (expect_present opening), bind_of_ok hname,
      bind_of_ok (accept_present closing), if_pos rfl, spanFrom_bind, place]
    rfl
  | @header word keyword l semi ns terms quoted opening name mark path closing =>
    have hname := (qualifiedNameWith_complete (leadComments all)).exact
      (keyword :: l :: semi :: rest) word.location notes ⟨terms, name, rfl⟩
      (by simp [nextToken, mark])
    have stands : Reading.token ⟨l :: semi :: rest, keyword.location, notes⟩ = .string quoted :=
      path
    have notSemi : nextToken (keyword :: l :: semi :: rest) ≠ .mark .semicolon := by
      simp [nextToken, mark]
    simp only [List.cons_append, List.append_assoc, List.nil_append, lastPlace,
      lastPlace_append] at place ⊢
    unfold parcelable
    rw [comments, bind_of_ok (expect_present opening), bind_of_ok hname,
      bind_of_ok (accept_absent notSemi), if_neg Bool.false_ne_true,
      bind_of_ok (accept_present mark), if_pos rfl]
    change (token >>= _) ⟨l :: semi :: rest, keyword.location, notes⟩ = _
    rw [token_bind, stands]
    dsimp only
    rw [take_bind]
    change (expect (.mark .semicolon) >>= _) ⟨semi :: rest, l.location, notes⟩ = _
    rw [bind_of_ok (expect_present closing), spanFrom_bind, place]
    rfl
  | @structured word left right ns ls terms fs opening name brace fields closing =>
    have loop := body_complete field_inhabited field_complete fun _ _ rest f => field_opens f rest
    rw [List.map_id_fun] at loop
    have hfields := loop.exact rest left.location notes ⟨fields, closing⟩ trivial
    rw [List.append_assoc, List.singleton_append] at hfields
    simp only [List.cons_append, List.append_assoc, List.nil_append, lastPlace,
      lastPlace_append] at place hfields ⊢
    rw [parcelable_of_body opening name brace hfields, comments, place]
  | @interface word left right os ns ls b n ms oneway opening name brace members closing =>
    cases oneway with
    | absent => simp [nextToken, opening] at start
    | present mark => simp [nextToken, mark] at start

/-- Only the kinds of members and what they look like show in the interface. -/
theorem ofMembers_alike {found ms : List Member}
    (alike : found.map Member.unplaced = ms.map Member.unplaced) (location : Location)
    (name comments : String) (oneway : Bool) (package : List String) :
    (Declaration.ofMembers location name comments oneway found package).mapTypes .unplaced =
      (Declaration.ofMembers location name comments oneway ms package).mapTypes .unplaced := by
  have methods (xs : List Member) :
      (xs.filterMap Member.method?).map (Method.mapTypes .unplaced) =
        (xs.map Member.unplaced).filterMap Member.method? :=
    map_filterMap_comm (fun m => by cases m <;> rfl) xs
  have constants (xs : List Member) :
      (xs.filterMap Member.constant?).map (fun c => { c with type := c.type.unplaced }) =
        (xs.map Member.unplaced).filterMap Member.constant? :=
    map_filterMap_comm (fun m => by cases m <;> rfl) xs
  have swap (xs : List Method) :
      (xs.map fun m => { m with oneway := m.oneway || oneway }).map (Method.mapTypes .unplaced) =
        (xs.map (Method.mapTypes .unplaced)).map
          fun m => { m with oneway := m.oneway || oneway } := by
    rw [List.map_map, List.map_map]
    rfl
  simp only [Declaration.ofMembers, Declaration.mapTypes, swap, methods, constants, alike]

/-- An interface, whatever is made of the lexemes in its braces. -/
theorem interface_of_body {first : Lexeme} {package : List String} {word left : Lexeme}
    {os ns more rest : List Lexeme} {b : Bool} {n : String} {ms : List Member}
    {previous place : Location} {notes told : List Diagnostic} (oneway : IsOneway os b)
    (opening : word.token = .word "interface") (name : IsIdentifier ns n)
    (brace : left.token = .mark .openBrace)
    (hbody : body member ⟨more, left.location, notes⟩ = .ok ms ⟨rest, place, told⟩) :
    interface first package ⟨os ++ word :: (ns ++ left :: more), previous, notes⟩ =
      .ok (.ofMembers (first.location.upTo place) n first.comments b ms package)
        ⟨rest, place, told⟩ := by
  have honeway := oneway_of_front oneway (word :: (ns ++ left :: more)) previous notes
    (fun _ => by simp [nextToken, opening])
  have hname := identifier_complete.exact (left :: more) word.location notes name trivial
  unfold interface
  rw [bind_of_ok honeway, bind_of_ok (expect_present opening), bind_of_ok hname,
    bind_of_ok (expect_present brace), bind_of_ok hbody, spanFrom_bind]
  rfl

theorem interface_of_front {first : Lexeme} {package : List String} {all bs rest : List Lexeme}
    {d : Declaration} {previous : Location} {notes : List Diagnostic}
    (derived : IsBody package all bs d) (other : nextToken (bs ++ rest) ≠ .word "parcelable")
    (place : first.location.upTo (lastPlace previous bs) = span all)
    (comments : first.comments = leadComments all) :
    ∃ e, interface first package ⟨bs ++ rest, previous, notes⟩ =
        .ok e ⟨rest, lastPlace previous bs, notes⟩ ∧
      e.mapTypes .unplaced = d.mapTypes .unplaced := by
  cases derived with
  | parcelable opening _ _ | header opening _ _ _ _ | structured opening _ _ _ _ =>
    exact absurd (by simp [nextToken, opening]) other
  | @interface word left right os ns ls b n ms oneway opening name brace members closing =>
    obtain ⟨found, hfound, alike⟩ :=
      body_complete member_inhabited member_complete (fun _ _ rest m => member_opens m rest) _ _
        rest left.location notes ⟨members, closing⟩ trivial
    refine ⟨_, ?_, ofMembers_alike alike (span all) n (leadComments all) b package⟩
    simp only [List.cons_append, List.append_assoc, List.nil_append, lastPlace,
      lastPlace_append] at place hfound ⊢
    rw [interface_of_body oneway opening name brace hfound, comments, place]

section
variable {package : List String} {as bs : List Lexeme} {set : AnnotationSet} {d : Declaration}
  {previous : Location} {notes : List Diagnostic} {next : Reading}

/-- Behind its annotations a declaration is read by the rule that its keyword chooses. -/
theorem declaration_of_parcelable (annotations : IsAnnotations as set)
    (start : nextToken bs = .word "parcelable")
    (h : parcelable (Reading.current ⟨as ++ bs, previous, notes⟩) package
      ⟨bs, lastPlace previous as, notes⟩ = .ok d next) :
    declaration package ⟨as ++ bs, previous, notes⟩ = .ok (d.annotate set) next := by
  have hset := annotations_complete.exact bs previous notes annotations (by simp [start])
  unfold declaration
  rw [current_bind, bind_of_ok hset, token_bind, token_eq_nextToken, if_pos start, bind_of_ok h]
  rfl

theorem declaration_of_interface (annotations : IsAnnotations as set)
    (start : nextToken bs = .word "interface" ∨ nextToken bs = .word "oneway")
    (h : interface (Reading.current ⟨as ++ bs, previous, notes⟩) package
      ⟨bs, lastPlace previous as, notes⟩ = .ok d next) :
    declaration package ⟨as ++ bs, previous, notes⟩ = .ok (d.annotate set) next := by
  have other : nextToken bs ≠ .word "parcelable" := by
    rcases start with start | start <;> simp [start]
  have hset := annotations_complete.exact bs previous notes annotations
    (by rcases start with start | start <;> simp [start])
  unfold declaration
  rw [current_bind, bind_of_ok hset, token_bind, token_eq_nextToken, if_neg other, if_pos start,
    bind_of_ok h]
  rfl

end

theorem declaration_complete (package : List String) :
    Complete (Declaration.mapTypes .unplaced) (IsDeclaration package) (fun _ => True)
      (declaration package) := by
  intro ls _ rest previous notes derived _
  have some := declaration_inhabited _ _ derived
  have place := place_of_front rest previous notes some
  have comments := comments_of_front rest previous notes some
  obtain ⟨rfl, annotations, body⟩ := derived
  rename_i as bs set d
  rw [List.append_assoc, lastPlace_append] at place
  rw [List.append_assoc] at comments
  rw [List.append_assoc, lastPlace_append]
  rcases body_starts body rest with start | start
  · refine ⟨d.annotate set, ?_, rfl⟩
    exact declaration_of_parcelable annotations start (parcelable_of_front body start place comments)
  · have other : nextToken (bs ++ rest) ≠ .word "parcelable" := by
      rcases start with start | start <;> simp [start]
    obtain ⟨e, hbody, alike⟩ := interface_of_front body other place comments
    refine ⟨e.annotate set, declaration_of_interface annotations start hbody, ?_⟩
    rw [Declaration.mapTypes_annotate, Declaration.mapTypes_annotate, alike]

/-- A declaration opens with an annotation or with the keyword of its body. -/
theorem annotated_starts {as bs : List Lexeme} {set : AnnotationSet}
    (annotations : IsAnnotations as set)
    (start : nextToken bs = .word "parcelable" ∨ nextToken bs = .word "interface" ∨
      nextToken bs = .word "oneway") :
    nextToken (as ++ bs) ≠ .eof ∧ nextToken (as ++ bs) ≠ .word "package" ∧
      nextToken (as ++ bs) ≠ .word "import" := by
  obtain ⟨all⟩ := annotations
  cases all with
  | cons first _ =>
    obtain ⟨opening, _⟩ := first
    simp [nextToken, opening]
  | nil => rcases start with start | start | start <;> simp [start]

theorem declaration_starts {package : List String} {ls : List Lexeme} {d : Declaration}
    (derived : IsDeclaration package ls d) (rest : List Lexeme) :
    nextToken (ls ++ rest) ≠ .eof ∧ nextToken (ls ++ rest) ≠ .word "package" ∧
      nextToken (ls ++ rest) ≠ .word "import" := by
  obtain ⟨rfl, annotations, body⟩ := derived
  rw [List.append_assoc]
  exact annotated_starts annotations (body_starts body rest)

theorem item_complete (package : List String) :
    Complete Item.unplaced (IsItem package) (fun _ => True) (item package) := by
  intro ls found rest previous notes derived _
  have place := place_of_front rest previous notes (item_inhabited _ _ derived)
  unfold item
  rcases derived with ⟨rfl, opening, name, closing⟩ | declared
  · rename_i ns word semi terms
    have start : nextToken (word :: (ns ++ [semi]) ++ rest) = .word "import" := by
      simp [nextToken, opening]
    have hname := qualifiedName_complete.exact (semi :: rest) word.location notes
      ⟨terms, name, rfl⟩ (by simp [nextToken, closing])
    refine ⟨_, ?_, rfl⟩
    rw [token_bind, token_eq_nextToken, if_pos start]
    simp only [List.cons_append, List.append_assoc, List.nil_append, lastPlace,
      lastPlace_append] at place ⊢
    have himport : importStatement ⟨word :: (ns ++ semi :: rest), previous, notes⟩ =
        .ok ⟨span (word :: (ns ++ [semi])), Text.joinDots terms⟩ ⟨rest, semi.location, notes⟩ := by
      unfold importStatement
      rw [current_bind, bind_of_ok (expect_present opening), bind_of_ok hname,
        bind_of_ok (expect_present closing), spanFrom_bind, place]
      rfl
    rw [bind_of_ok himport]
    rfl
  · rename_i d
    obtain ⟨e, hdeclaration, alike⟩ :=
      declaration_complete package ls d rest previous notes declared trivial
    refine ⟨.declaring e, ?_, congrArg Item.declaring alike⟩
    rw [token_bind, token_eq_nextToken, if_neg (declaration_starts declared rest).2.2,
      bind_of_ok hdeclaration]
    rfl

theorem item_starts {package : List String} {ls : List Lexeme} {a : Item}
    (derived : IsItem package ls a) (rest : List Lexeme) :
    nextToken (ls ++ rest) ≠ .eof ∧ nextToken (ls ++ rest) ≠ .word "package" := by
  rcases derived with ⟨rfl, opening, _, _⟩ | declared
  · simp [nextToken, opening]
  · have starts := declaration_starts declared rest
    exact ⟨starts.1, starts.2.1⟩

theorem packageClause_complete :
    Complete id IsPackage (· ≠ .word "package") packageClause := by
  intro _ package rest previous notes derived fit
  refine ⟨package, ?_, rfl⟩
  unfold packageClause
  rw [token_eq_nextToken]
  cases derived with
  | absent =>
    simp only [List.nil_append]
    rw [if_neg fit]
    rfl
  | @present word semi ns terms opening name closing =>
    have start : nextToken (word :: (ns ++ [semi]) ++ rest) = .word "package" := by
      simp [nextToken, opening]
    have hname := qualifiedName_complete.exact (semi :: rest) word.location notes
      ⟨terms, name, rfl⟩ (by simp [nextToken, closing])
    have hstatement : packageStatement ⟨word :: (ns ++ semi :: rest), previous, notes⟩ =
        .ok ⟨span ns, terms, leadComments ns⟩ ⟨rest, semi.location, notes⟩ := by
      unfold packageStatement
      rw [bind_of_ok (expect_present opening), bind_of_ok hname,
        bind_of_ok (expect_present closing)]
      rfl
    dsimp only
    rw [if_pos start]
    unfold attempt
    simp only [List.cons_append, List.append_assoc, List.nil_append, lastPlace, lastPlace_append]
    rw [hstatement]

theorem statements_unplaced (items : List Item) :
    items.filterMap Item.statement? = (items.map Item.unplaced).filterMap Item.statement? := by
  rw [List.filterMap_map]
  congr 1
  funext found
  cases found <;> rfl

theorem declarations_unplaced (items : List Item) :
    (items.filterMap Item.declaration?).map (Declaration.mapTypes .unplaced) =
      (items.map Item.unplaced).filterMap Item.declaration? :=
  map_filterMap_comm (fun found => by cases found <;> rfl) items

theorem sourceFile_complete :
    Complete SourceFile.unplaced IsFile (· = .eof) sourceFile := by
  rintro _ _ rest previous notes ⟨opening, all⟩ fit
  rename_i ps ls package items
  have behind : nextToken (ls ++ rest) ≠ .word "package" := by
    cases all with
    | nil =>
      rw [List.nil_append, show nextToken rest = .eof from fit]
      simp
    | cons first _ =>
      rw [List.append_assoc]
      exact (item_starts first _).2
  have hpackage := packageClause_complete.exact (ls ++ rest) previous notes opening behind
  have loop : Complete (List.map (Option.map Item.unplaced))
      (Many fun ls o => ∃ a, o = some a ∧ IsItem ((package.map QualifiedName.terms).getD []) ls a)
      (fun t => True ∧ decide (t ≠ .eof) = false)
      (manyWhile (· ≠ .eof)
        (attempt afterDeclaration (item ((package.map QualifiedName.terms).getD [])))) := by
    refine manyWhile_complete (some_inhabited item_inhabited)
      (attempt_complete afterDeclaration (item_complete _)) ?_
    rintro ls _ rest ⟨a, -, derived⟩
    simpa using (item_starts derived rest).1
  obtain ⟨found, hfound, alike⟩ := loop ls (items.map some) rest (lastPlace previous ps) notes
    (many_some_iff.2 ⟨items, rfl, all⟩) ⟨trivial, by simpa using fit⟩
  have same : (found.filterMap id).map Item.unplaced = items.map Item.unplaced := by
    rw [map_filterMap_id, alike, ← map_filterMap_id]
    simp
  refine ⟨⟨package, (found.filterMap id).filterMap Item.statement?,
    (found.filterMap id).filterMap Item.declaration?⟩, ?_, ?_⟩
  · unfold sourceFile
    rw [List.append_assoc, bind_of_ok hpackage, bind_of_ok hfound, lastPlace_append]
    rfl
  · simp only [SourceFile.unplaced, declarations_unplaced, same]
    rw [statements_unplaced, same, ← statements_unplaced]

end Grammar

end IdlFrontEnd
