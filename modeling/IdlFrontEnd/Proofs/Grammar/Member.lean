import IdlFrontEnd.Proofs.Grammar.TypeExpr

/-!
# Members as derived

Fields and constants are read whole. Annotations before a method or an argument are read greedily,
so those that a derivation gives to the type behind them are taken from it; the type has the same
annotations in the end, and only its own place and comments differ. Two methods that differ in no
more than that are alike, and what the rule gives is like what is derived.
-/
namespace IdlFrontEnd

/-- The type without its own place and comments. -/
def TypeExpr.unplaced (t : TypeExpr) : TypeExpr :=
  { t with head := { t.head with location := .nowhere, comments := "" } }

def Argument.unplaced (a : Argument) : Argument := { a with type := a.type.unplaced }

def Member.unplaced : Member → Member
  | .method m => .method (m.mapTypes .unplaced)
  | .constant c => .constant { c with type := c.type.unplaced }

namespace Grammar

/-! ## Soundness -/

theorem defaultValue_sound : Sound IsDefault defaultValue := by
  intro r v next h silent
  obtain ⟨b, mid, haccept, hrest⟩ := bind_eq_ok.1 h
  rcases accept_sound (by decide) haccept with ⟨rfl, eq, heq, tookEq⟩ | ⟨rfl, rfl⟩
  · obtain ⟨value, last, hvalue, hrest⟩ := bind_eq_ok.1 hrest
    cases hrest
    obtain ⟨ls, took, derived⟩ := literal_sound mid value next hvalue silent
    exact ⟨eq :: ls, tookEq.cons took, .present heq derived⟩
  · cases hrest
    exact ⟨[], .refl _, .absent⟩

theorem field_inhabited : Inhabited IsField := by
  rintro _ _ ⟨rfl, _, _, _, _⟩
  simp

theorem field_sound : Sound IsField field := by
  intro r f next h silent
  obtain ⟨start, mid, hstart, h⟩ := bind_eq_ok.1 h
  cases hstart
  obtain ⟨t, afterType, htype, h⟩ := bind_eq_ok.1 h
  obtain ⟨n, afterName, hname, h⟩ := bind_eq_ok.1 h
  obtain ⟨v, afterDefault, hdefault, h⟩ := bind_eq_ok.1 h
  obtain ⟨_, last, hsemi, h⟩ := bind_eq_ok.1 h
  cases h
  obtain ⟨semi, closing, tookSemi⟩ := expect_sound (by decide) hsemi
  obtain ⟨vs, tookDefault, default⟩ :=
    defaultValue_sound _ _ _ hdefault (tookSemi.notes.symm.trans silent)
  have tookRest := tookDefault.trans tookSemi
  obtain ⟨ns, tookName, name⟩ :=
    identifier_sound _ _ _ hname (tookRest.notes.symm.trans silent)
  have tookRest := tookName.trans tookRest
  obtain ⟨ts, tookType, type⟩ := typeExpr_sound _ _ _ htype (tookRest.notes.symm.trans silent)
  have took := tookType.trans tookRest
  have derived := IsField.mk rfl type name default closing
  rw [← took.span (field_inhabited _ _ derived)] at derived
  exact ⟨_, took, derived⟩

theorem constant_inhabited : Inhabited IsConstant := by
  rintro _ _ ⟨rfl, _, _, _, _, _, _⟩
  simp

theorem constant_sound : Sound IsConstant constant := by
  intro r c next h silent
  obtain ⟨start, mid, hstart, h⟩ := bind_eq_ok.1 h
  cases hstart
  obtain ⟨_, afterWord, hword, h⟩ := bind_eq_ok.1 h
  obtain ⟨t, afterType, htype, h⟩ := bind_eq_ok.1 h
  obtain ⟨n, afterName, hname, h⟩ := bind_eq_ok.1 h
  obtain ⟨_, afterEq, heq, h⟩ := bind_eq_ok.1 h
  obtain ⟨v, afterValue, hvalue, h⟩ := bind_eq_ok.1 h
  obtain ⟨_, last, hsemi, h⟩ := bind_eq_ok.1 h
  cases h
  obtain ⟨semi, closing, tookSemi⟩ := expect_sound (by decide) hsemi
  obtain ⟨vs, tookValue, value⟩ :=
    literal_sound _ _ _ hvalue (tookSemi.notes.symm.trans silent)
  obtain ⟨eq, equals, tookEq⟩ := expect_sound (by decide) heq
  have tookRest := tookEq.cons (tookValue.trans tookSemi)
  obtain ⟨ns, tookName, name⟩ :=
    identifier_sound _ _ _ hname (tookRest.notes.symm.trans silent)
  have tookRest := tookName.trans tookRest
  obtain ⟨ts, tookType, type⟩ := typeExpr_sound _ _ _ htype (tookRest.notes.symm.trans silent)
  obtain ⟨word, opening, tookWord⟩ := expect_sound (by decide) hword
  have took := tookWord.cons (tookType.trans tookRest)
  have derived := IsConstant.mk rfl opening type name equals value closing
  rw [← took.span (constant_inhabited _ _ derived)] at derived
  exact ⟨_, took, derived⟩

theorem direction_took {r next : Reading} {d : Option Direction} (h : direction r = .ok d next) :
    ∃ ls, Took r ls next ∧ IsDirection ls d := by
  obtain ⟨seen, mid, hseen, h⟩ := bind_eq_ok.1 h
  cases hseen
  cases hword : r.token with
  | word text =>
    rw [hword] at h
    dsimp only at h
    cases hd : Direction.ofKeyword? text with
    | some d =>
      rw [hd] at h
      cases h
      obtain ⟨l, hl, took⟩ := Took.take (r := r) (by simp [hword])
      have keyword := Direction.ofKeyword?_eq_some_iff.1 hd
      exact ⟨[l], took, .present (by rw [hl, hword, keyword])⟩
    | none =>
      rw [hd] at h
      cases h
      exact ⟨[], .refl _, .absent⟩
  | number | string | mark | eof =>
    rw [hword] at h
    cases h
    exact ⟨[], .refl _, .absent⟩

theorem direction_sound : Sound IsDirection direction :=
  fun _ _ _ h _ => direction_took h

theorem argument_inhabited : Inhabited IsArgument := by
  rintro _ _ ⟨rfl, _, _, type, _⟩
  simp [type_inhabited _ _ type]

theorem argument_sound : Sound IsArgument argument := by
  intro r a next h silent
  obtain ⟨start, mid, hstart, h⟩ := bind_eq_ok.1 h
  cases hstart
  obtain ⟨before, afterSet, hset, h⟩ := bind_eq_ok.1 h
  obtain ⟨d, afterDirection, hdirection, h⟩ := bind_eq_ok.1 h
  obtain ⟨t, afterType, htype, h⟩ := bind_eq_ok.1 h
  obtain ⟨n, last, hname, h⟩ := bind_eq_ok.1 h
  cases h
  obtain ⟨ns, tookName, name⟩ := identifier_sound _ _ _ hname silent
  obtain ⟨ts, tookType, type⟩ := typeExpr_sound _ _ _ htype (tookName.notes.symm.trans silent)
  have tookRest := tookType.trans tookName
  obtain ⟨ds, tookDirection, direction⟩ :=
    direction_sound _ _ _ hdirection (tookRest.notes.symm.trans silent)
  have tookRest := tookDirection.trans tookRest
  obtain ⟨as, tookSet, set⟩ := annotations_sound _ _ _ hset (tookRest.notes.symm.trans silent)
  have took := tookSet.trans tookRest
  have derived := IsArgument.mk rfl set direction type name
  rw [← took.span (argument_inhabited _ _ derived)] at derived
  exact ⟨_, took, derived⟩

theorem argumentList_sound : Sound IsArgumentList argumentList := by
  intro r args next h silent
  obtain ⟨_, afterLeft, hleft, h⟩ := bind_eq_ok.1 h
  obtain ⟨left, opening, tookLeft⟩ := expect_sound (by decide) hleft
  obtain ⟨seen, mid, hseen, h⟩ := bind_eq_ok.1 h
  cases hseen
  split at h
  · obtain ⟨_, mid, hnone, h⟩ := bind_eq_ok.1 h
    cases hnone
    obtain ⟨_, last, hright, h⟩ := bind_eq_ok.1 h
    cases h
    obtain ⟨right, closing, tookRight⟩ := expect_sound (by decide) hright
    exact ⟨[left, right], tookLeft.trans tookRight, .empty opening closing⟩
  · obtain ⟨all, afterAll, hall, h⟩ := bind_eq_ok.1 h
    obtain ⟨_, last, hright, h⟩ := bind_eq_ok.1 h
    cases h
    obtain ⟨right, closing, tookRight⟩ := expect_sound (by decide) hright
    obtain ⟨ls, took, derived⟩ :=
      separated_sound argument_sound _ _ _ hall (tookRight.notes.symm.trans silent)
    exact ⟨_, tookLeft.cons (took.trans tookRight), .some opening derived closing⟩

theorem methodId_took {r next : Reading} {id : MethodId} (h : methodId r = .ok id next) :
    ∃ ls, Took r ls next ∧ IsMethodId ls id := by
  obtain ⟨b, mid, haccept, hrest⟩ := bind_eq_ok.1 h
  rcases accept_sound (by decide) haccept with ⟨rfl, eq, opening, tookEq⟩ | ⟨rfl, rfl⟩
  · obtain ⟨seen, _, hseen, hrest⟩ := bind_eq_ok.1 hrest
    cases hseen
    cases hnumber : mid.token with
    | number text =>
      rw [hnumber] at hrest
      dsimp only at hrest
      cases hvalue : Text.decimal? text with
      | some value =>
        rw [hvalue] at hrest
        cases hrest
        obtain ⟨l, hl, took⟩ := Took.take (r := mid) (by simp [hnumber])
        exact ⟨[eq, l], tookEq.trans took, .present opening (hl.trans hnumber) hvalue⟩
      | none =>
        rw [hvalue] at hrest
        cases hrest
    | word | string | mark | eof =>
      rw [hnumber] at hrest
      cases hrest
  · cases hrest
    exact ⟨[], .refl _, .absent⟩

theorem methodId_sound : Sound IsMethodId methodId :=
  fun _ _ _ h _ => methodId_took h

theorem oneway_sound {r next : Reading} {b : Bool}
    (h : accept (.word "oneway") r = .ok b next) : ∃ ls, Took r ls next ∧ IsOneway ls b := by
  rcases accept_sound (by decide) h with ⟨rfl, l, word, took⟩ | ⟨rfl, rfl⟩
  · exact ⟨[l], took, .present word⟩
  · exact ⟨[], .refl _, .absent⟩

theorem method_inhabited : Inhabited IsMethod := by
  rintro _ _ ⟨rfl, _, _, _, _, _, _, _⟩
  simp

theorem method_sound : Sound IsMethod method := by
  intro r m next h silent
  obtain ⟨start, mid, hstart, h⟩ := bind_eq_ok.1 h
  cases hstart
  obtain ⟨before, afterSet, hset, h⟩ := bind_eq_ok.1 h
  obtain ⟨b, afterOneway, honeway, h⟩ := bind_eq_ok.1 h
  obtain ⟨t, afterType, htype, h⟩ := bind_eq_ok.1 h
  obtain ⟨n, afterName, hname, h⟩ := bind_eq_ok.1 h
  obtain ⟨args, afterArguments, harguments, h⟩ := bind_eq_ok.1 h
  obtain ⟨id, afterId, hid, h⟩ := bind_eq_ok.1 h
  obtain ⟨_, last, hsemi, h⟩ := bind_eq_ok.1 h
  cases h
  obtain ⟨semi, closing, tookSemi⟩ := expect_sound (by decide) hsemi
  obtain ⟨is, tookId, number⟩ := methodId_sound _ _ _ hid (tookSemi.notes.symm.trans silent)
  have tookRest := tookId.trans tookSemi
  obtain ⟨gs, tookArguments, arguments⟩ :=
    argumentList_sound _ _ _ harguments (tookRest.notes.symm.trans silent)
  have tookRest := tookArguments.trans tookRest
  obtain ⟨ns, tookName, name⟩ :=
    identifier_sound _ _ _ hname (tookRest.notes.symm.trans silent)
  have tookRest := tookName.trans tookRest
  obtain ⟨ts, tookType, type⟩ := typeExpr_sound _ _ _ htype (tookRest.notes.symm.trans silent)
  obtain ⟨os, tookOneway, oneway⟩ := oneway_sound honeway
  have tookRest := tookOneway.trans (tookType.trans tookRest)
  obtain ⟨as, tookSet, set⟩ := annotations_sound _ _ _ hset (tookRest.notes.symm.trans silent)
  have took := tookSet.trans tookRest
  have derived := IsMethod.mk rfl set oneway type name arguments number closing
  have some := method_inhabited _ _ derived
  rw [← took.span some, ← took.comments some] at derived
  exact ⟨_, took, derived⟩

theorem member_sound : Sound IsMember member := by
  intro r m next h silent
  obtain ⟨seen, mid, hseen, h⟩ := bind_eq_ok.1 h
  cases hseen
  split at h
  · obtain ⟨c, last, hconstant, h⟩ := bind_eq_ok.1 h
    cases h
    obtain ⟨ls, took, derived⟩ := constant_sound _ _ _ hconstant silent
    exact ⟨ls, took, .constant derived⟩
  · obtain ⟨m, last, hmethod, h⟩ := bind_eq_ok.1 h
    cases h
    obtain ⟨ls, took, derived⟩ := method_sound _ _ _ hmethod silent
    exact ⟨ls, took, .method derived⟩

theorem member_inhabited : Inhabited IsMember := by
  rintro ls _ (constant | method)
  · exact constant_inhabited _ _ constant
  · exact method_inhabited _ _ method

/-! ## Completeness -/

theorem identifier_starts {ns : List Lexeme} {text : String} (name : IsIdentifier ns text)
    (rest : List Lexeme) : nextToken (ns ++ rest) = .word text ∧ text ∉ keywords := by
  obtain ⟨word, free⟩ := name
  exact ⟨by simp [nextToken, word], free⟩

/-- A type ends where an identifier starts. -/
theorem endsType_identifier {ns : List Lexeme} {text : String} (name : IsIdentifier ns text)
    (rest : List Lexeme) : EndsType (nextToken (ns ++ rest)) := by
  rw [(identifier_starts name rest).1]
  exact ⟨by simp, by simp, by simp⟩

/-- A type opens with an annotation or with a word outside the keywords. -/
theorem type_starts {ts : List Lexeme} {t : TypeExpr} (type : IsType ts t) (rest : List Lexeme) :
    nextToken (ts ++ rest) = .mark .at ∨
      ∃ text, text ∉ keywords ∧ nextToken (ts ++ rest) = .word text := by
  obtain ⟨rfl, ⟨all⟩, name, _, _⟩ := type
  cases all with
  | nil =>
    right
    simpa using name_starts name _
  | cons first _ =>
    obtain ⟨opening, _⟩ := first
    left
    simp [nextToken, opening]

/-- What a field, an argument and a member open with. -/
def OpensPhrase (t : Token) : Prop := t = .mark .at ∨ ∃ text, t = .word text

theorem OpensPhrase.ne_mark {t : Token} (opens : OpensPhrase t) {m : Mark} (other : .at ≠ m) :
    t ≠ .mark m := by
  rcases opens with rfl | ⟨text, rfl⟩
  · simpa using other
  · simp

theorem OpensPhrase.ne_eof {t : Token} (opens : OpensPhrase t) : t ≠ .eof := by
  rcases opens with rfl | ⟨text, rfl⟩
  · simp
  · simp

theorem type_opens {ts : List Lexeme} {t : TypeExpr} (type : IsType ts t) (rest : List Lexeme) :
    OpensPhrase (nextToken (ts ++ rest)) := by
  rcases type_starts type rest with start | ⟨text, -, start⟩
  · exact .inl start
  · exact .inr ⟨text, start⟩

theorem many_append {α : Type} {D : List Lexeme → α → Prop} {ls ms : List Lexeme} {as bs : List α}
    (first : Many D ls as) (second : Many D ms bs) : Many D (ls ++ ms) (as ++ bs) := by
  induction first with
  | nil => exact second
  | cons head _ ih =>
    rw [List.append_assoc]
    exact .cons head ih

theorem annotations_append {ls ms : List Lexeme} {s t : AnnotationSet} (first : IsAnnotations ls s)
    (second : IsAnnotations ms t) : IsAnnotations (ls ++ ms) (s.union t) := by
  obtain ⟨as⟩ := first
  obtain ⟨bs⟩ := second
  rw [← AnnotationSet.ofList_append]
  exact .mk (many_append as bs)

/-- Annotations, words and a type can be parted so that no annotation stands behind other ones and
is not among them. With a word in between they stay as they are; else the type gives up its own. -/
theorem greedy_parts {as os ts : List Lexeme} {before : AnnotationSet} {t : TypeExpr}
    (annotations : IsAnnotations as before) (type : IsType ts t)
    (words : ∀ l ∈ os, ∃ text, l.token = .word text) :
    ∃ as' ts' set t', as ++ (os ++ ts) = as' ++ (os ++ ts') ∧ IsAnnotations as' set ∧
      IsType ts' t' ∧ (withAnnotations t' set).unplaced = (withAnnotations t before).unplaced ∧
      (∀ rest, nextToken (os ++ (ts' ++ rest)) ≠ .mark .at) ∧
      (os = [] → ∀ rest, ∃ text, text ∉ keywords ∧ nextToken (ts' ++ rest) = .word text) := by
  cases os with
  | cons l os =>
    obtain ⟨text, word⟩ := words l List.mem_cons_self
    refine ⟨as, ts, before, t, rfl, annotations, type, rfl, ?_, by simp⟩
    intro rest
    simp [nextToken, word]
  | nil =>
    obtain ⟨rfl, own, name, params, mark⟩ := type
    rename_i own_ ns ps bs set terms params_ b
    have bare := IsType.mk (List.nil_append _).symm ⟨.nil⟩ name params mark
    refine ⟨as ++ own_, _, _, _, ?_, annotations_append annotations own, bare, ?_, ?_, ?_⟩
    · simp
    · simp only [withAnnotations, TypeExpr.annotate, TypeExpr.unplaced, TypeHead.fresh]
      rw [AnnotationSet.union_comm set before]
      rfl
    · intro rest
      obtain ⟨text, -, start⟩ := name_starts name (ps ++ (bs ++ rest))
      simp only [List.nil_append, List.append_assoc, start]
      simp
    · intro _ rest
      simpa using name_starts name (ps ++ (bs ++ rest))

theorem defaultValue_complete : Complete id IsDefault (· ≠ .mark .equals) defaultValue := by
  intro _ v rest previous notes derived fit
  refine ⟨v, ?_, rfl⟩
  unfold defaultValue
  cases derived with
  | absent =>
    change (accept (.mark .equals) >>= _) ⟨rest, previous, notes⟩ = _
    rw [bind_of_ok (accept_absent fit)]
    rfl
  | @present eq ls value opening literal =>
    have hvalue := literal_complete.exact rest eq.location notes literal trivial
    change (accept (.mark .equals) >>= _) ⟨eq :: (ls ++ rest), previous, notes⟩ = _
    rw [bind_of_ok (accept_present opening), if_pos rfl, bind_of_ok hvalue]
    rfl

theorem field_complete : Complete id IsField (fun _ => True) field := by
  intro ls f rest previous notes derived _
  refine ⟨f, ?_, rfl⟩
  have place := place_of_front rest previous notes
    (field_inhabited _ _ derived)
  obtain ⟨rfl, type, name, default, closing⟩ := derived
  rename_i ts ns vs semi t n v
  have htype := typeExpr_complete.exact (ns ++ (vs ++ semi :: rest)) previous notes type
    (endsType_identifier name _)
  have hname := identifier_complete.exact (vs ++ semi :: rest) (lastPlace previous ts)
    notes name trivial
  have hdefault := defaultValue_complete.exact (semi :: rest)
    (lastPlace (lastPlace previous ts) ns) notes default (by simp [nextToken, closing])
  unfold field
  rw [current_bind]
  simp only [List.append_assoc, List.singleton_append, lastPlace_append] at place ⊢
  rw [bind_of_ok htype, bind_of_ok hname, bind_of_ok hdefault, bind_of_ok (expect_present closing),
    spanFrom_bind]
  simp only [lastPlace] at place ⊢
  rw [place]
  rfl

theorem constant_complete : Complete id IsConstant (fun _ => True) constant := by
  intro ls c rest previous notes derived _
  refine ⟨c, ?_, rfl⟩
  have place := place_of_front rest previous notes
    (constant_inhabited _ _ derived)
  obtain ⟨rfl, opening, type, name, equals, value, closing⟩ := derived
  rename_i ts ns vs word eq semi t n v
  have htype := typeExpr_complete.exact (ns ++ eq :: (vs ++ semi :: rest)) word.location
    notes type (endsType_identifier name _)
  have hname := identifier_complete.exact (eq :: (vs ++ semi :: rest))
    (lastPlace word.location ts) notes name trivial
  have hvalue := literal_complete.exact (semi :: rest) eq.location notes value trivial
  unfold constant
  rw [current_bind]
  simp only [List.cons_append, List.append_assoc, List.nil_append, lastPlace,
    lastPlace_append] at place ⊢
  rw [bind_of_ok (expect_present opening), bind_of_ok htype, bind_of_ok hname,
    bind_of_ok (expect_present equals), bind_of_ok hvalue, bind_of_ok (expect_present closing),
    spanFrom_bind, place]
  rfl

/-- Where no direction is written, a word outside the keywords has to stand. -/
theorem direction_of_front {ds rest : List Lexeme} {d : Option Direction}
    (derived : IsDirection ds d)
    (fit : ds = [] → ∃ text, text ∉ keywords ∧ nextToken rest = .word text) (previous : Location)
    (notes : List Diagnostic) :
    direction ⟨ds ++ rest, previous, notes⟩ = .ok d ⟨rest, lastPlace previous ds, notes⟩ := by
  unfold direction
  cases derived with
  | absent =>
    obtain ⟨text, free, start⟩ := fit rfl
    have unknown : Direction.ofKeyword? text = none := by
      cases hd : Direction.ofKeyword? text with
      | none => rfl
      | some d =>
        rw [Direction.ofKeyword?_eq_some_iff.1 hd] at free
        cases d <;> simp [keywords, Direction.keyword] at free
    change (token >>= _) ⟨rest, previous, notes⟩ = _
    rw [token_bind, token_eq_nextToken, start]
    dsimp only
    rw [unknown]
    rfl
  | @present l d word =>
    have stands : Reading.token ⟨l :: rest, previous, notes⟩ = .word d.keyword := word
    change (token >>= _) ⟨l :: rest, previous, notes⟩ = _
    rw [token_bind, stands]
    dsimp only
    rw [Direction.ofKeyword?_eq_some_iff.2 rfl]
    rfl

theorem argument_complete :
    Complete Argument.unplaced IsArgument (fun _ => True) argument := by
  intro ls a rest previous notes derived _
  have place := place_of_front rest previous notes
    (argument_inhabited _ _ derived)
  obtain ⟨parts, annotations, direction, type, name⟩ := derived
  rename_i as ds ts ns before d t n
  have words : ∀ l ∈ ds, ∃ text, l.token = .word text := by
    cases direction with
    | absent => simp
    | present word => simp [word]
  obtain ⟨as, ts, set, t', same, annotations, type, alike, notAt, start⟩ :=
    greedy_parts annotations type words
  have parts : ls = as ++ (ds ++ (ts ++ ns)) := by
    simpa [parts] using congrArg (· ++ ns) same
  have hset := annotations_complete.exact (ds ++ (ts ++ (ns ++ rest))) previous notes
    annotations (notAt _)
  have hdirection := direction_of_front direction (fun none => start none (ns ++ rest))
    (lastPlace previous as) notes
  have htype := typeExpr_complete.exact (ns ++ rest)
    (lastPlace (lastPlace previous as) ds) notes type (endsType_identifier name _)
  have hname := identifier_complete.exact rest
    (lastPlace (lastPlace (lastPlace previous as) ds) ts) notes name trivial
  refine ⟨⟨span ls, d, withAnnotations t' set, n⟩, ?_, ?_⟩
  · unfold argument
    rw [current_bind]
    simp only [parts, List.append_assoc, lastPlace_append] at place ⊢
    rw [bind_of_ok hset, bind_of_ok hdirection, bind_of_ok htype, bind_of_ok hname,
      spanFrom_bind, place]
    rfl
  · simp only [Argument.unplaced, alike]

theorem argument_opens {ls : List Lexeme} {a : Argument} (derived : IsArgument ls a)
    (rest : List Lexeme) : OpensPhrase (nextToken (ls ++ rest)) := by
  obtain ⟨rfl, ⟨all⟩, direction, type, _⟩ := derived
  cases all with
  | cons first _ =>
    obtain ⟨opening, _⟩ := first
    left
    simp [nextToken, opening]
  | nil =>
    cases direction with
    | present word =>
      right
      simp [nextToken, word]
    | absent =>
      simp only [List.nil_append, List.append_assoc]
      exact type_opens type _

theorem argumentList_complete :
    Complete (List.map Argument.unplaced) IsArgumentList (fun _ => True) argumentList := by
  intro _ args rest previous notes derived _
  unfold argumentList
  cases derived with
  | @empty left right opening closing =>
    have stands : Reading.token ⟨right :: rest, left.location, notes⟩ = .mark .closeParen := closing
    refine ⟨[], ?_, rfl⟩
    change (expect (.mark .openParen) >>= _) ⟨left :: right :: rest, previous, notes⟩ = _
    rw [bind_of_ok (expect_present opening), token_bind, if_pos stands]
    change (expect (.mark .closeParen) >>= _) ⟨right :: rest, left.location, notes⟩ = _
    rw [bind_of_ok (expect_present closing)]
    rfl
  | @some left right ls args opening all closing =>
    have other : nextToken (ls ++ right :: rest) ≠ .mark .closeParen := by
      obtain ⟨first, _⟩ := all
      rw [List.append_assoc]
      exact (argument_opens first _).ne_mark (by decide)
    obtain ⟨found, hfound, alike⟩ := separated_complete argument_complete trivial ls args
      (right :: rest) left.location notes all (by simp [nextToken, closing])
    refine ⟨found, ?_, alike⟩
    change (expect (.mark .openParen) >>= _)
      ⟨left :: ((ls ++ [right]) ++ rest), previous, notes⟩ = _
    rw [bind_of_ok (expect_present opening), List.append_assoc, List.singleton_append, token_bind,
      token_eq_nextToken, if_neg other, bind_of_ok hfound]
    change (expect (.mark .closeParen) >>= _) ⟨right :: rest, lastPlace left.location ls, notes⟩ = _
    rw [bind_of_ok (expect_present closing)]
    simp [lastPlace, lastPlace_append]
    rfl

theorem methodId_complete : Complete id IsMethodId (· ≠ .mark .equals) methodId := by
  intro _ id rest previous notes derived fit
  refine ⟨id, ?_, rfl⟩
  unfold methodId
  cases derived with
  | absent =>
    change (accept (.mark .equals) >>= _) ⟨rest, previous, notes⟩ = _
    rw [bind_of_ok (accept_absent fit)]
    rfl
  | @present eq l text n opening token value =>
    have stands : Reading.token ⟨l :: rest, eq.location, notes⟩ = .number text := token
    change (accept (.mark .equals) >>= _) ⟨eq :: l :: rest, previous, notes⟩ = _
    rw [bind_of_ok (accept_present opening), if_pos rfl]
    rw [token_bind, stands]
    dsimp only
    rw [value]
    rfl

theorem oneway_of_front {os : List Lexeme} {b : Bool} (derived : IsOneway os b)
    (rest : List Lexeme) (previous : Location) (notes : List Diagnostic)
    (fit : os = [] → nextToken rest ≠ .word "oneway") :
    accept (.word "oneway") ⟨os ++ rest, previous, notes⟩ =
      .ok b ⟨rest, lastPlace previous os, notes⟩ := by
  cases derived with
  | absent => exact accept_absent (fit rfl)
  | present word => exact accept_present word

theorem method_complete :
    Complete (Method.mapTypes TypeExpr.unplaced) IsMethod (fun _ => True) method := by
  intro ls m rest previous notes derived _
  have place := place_of_front rest previous notes
    (method_inhabited _ _ derived)
  have comments := comments_of_front rest previous notes
    (method_inhabited _ _ derived)
  obtain ⟨parts, annotations, oneway, type, name, arguments, number, closing⟩ := derived
  rename_i as os ts ns gs is semi before b t n args id
  have words : ∀ l ∈ os, ∃ text, l.token = .word text := by
    cases oneway with
    | absent => simp
    | present word => simp [word]
  obtain ⟨as, ts, set, t', same, annotations, type, alike, notAt, start⟩ :=
    greedy_parts annotations type words
  have parts : ls = as ++ (os ++ (ts ++ (ns ++ (gs ++ (is ++ [semi]))))) := by
    simpa [parts] using congrArg (· ++ (ns ++ (gs ++ (is ++ [semi])))) same
  have notOneway (none : os = []) (behind : List Lexeme) :
      nextToken (ts ++ behind) ≠ .word "oneway" := by
    obtain ⟨text, free, start⟩ := start none behind
    rw [start]
    rintro ⟨⟩
    simp [keywords] at free
  have hset := annotations_complete.exact
    (os ++ (ts ++ (ns ++ (gs ++ (is ++ semi :: rest))))) previous notes annotations
    (notAt _)
  have honeway := oneway_of_front oneway (ts ++ (ns ++ (gs ++ (is ++ semi :: rest))))
    (lastPlace previous as) notes (notOneway · _)
  have htype := typeExpr_complete.exact (ns ++ (gs ++ (is ++ semi :: rest)))
    (lastPlace (lastPlace previous as) os) notes type (endsType_identifier name _)
  have hname := identifier_complete.exact (gs ++ (is ++ semi :: rest))
    (lastPlace (lastPlace (lastPlace previous as) os) ts) notes name trivial
  obtain ⟨args', harguments, alikeArguments⟩ := argumentList_complete gs args
    (is ++ semi :: rest) (lastPlace (lastPlace (lastPlace (lastPlace previous as) os) ts) ns) notes
    arguments trivial
  have hid := methodId_complete.exact (semi :: rest)
    (lastPlace (lastPlace (lastPlace (lastPlace (lastPlace previous as) os) ts) ns) gs) notes
    number (by simp [nextToken, closing])
  refine ⟨⟨span ls, b, leadComments ls, withAnnotations t' set, n, args', id⟩, ?_, ?_⟩
  · unfold method
    rw [current_bind, comments]
    simp only [parts, List.append_assoc, List.singleton_append, lastPlace_append] at place ⊢
    rw [bind_of_ok hset, bind_of_ok honeway, bind_of_ok htype, bind_of_ok hname,
      bind_of_ok harguments, bind_of_ok hid, bind_of_ok (expect_present closing), spanFrom_bind]
    simp only [lastPlace] at place ⊢
    rw [place]
    rfl
  · simp only [Method.mapTypes, alike]
    congr 1

theorem method_starts {ls : List Lexeme} {m : Method} (derived : IsMethod ls m)
    (rest : List Lexeme) :
    nextToken (ls ++ rest) = .mark .at ∨
      ∃ text, text ≠ "const" ∧ nextToken (ls ++ rest) = .word text := by
  obtain ⟨rfl, ⟨all⟩, oneway, type, _, _, _, _⟩ := derived
  cases all with
  | cons first _ =>
    obtain ⟨opening, _⟩ := first
    left
    simp [nextToken, opening]
  | nil =>
    cases oneway with
    | present word =>
      right
      exact ⟨"oneway", by decide, by simp [nextToken, word]⟩
    | absent =>
      simp only [List.nil_append, List.append_assoc]
      rcases type_starts type _ with start | ⟨text, free, start⟩
      · exact .inl start
      · right
        refine ⟨text, ?_, start⟩
        rintro rfl
        simp [keywords] at free

theorem member_complete : Complete Member.unplaced IsMember (fun _ => True) member := by
  rintro ls _ rest previous notes (constant | method) -
  · have start : nextToken (ls ++ rest) = .word "const" := by
      obtain ⟨rfl, opening, _, _, _, _, _⟩ := constant
      simp [nextToken, opening]
    refine ⟨_, ?_, rfl⟩
    unfold member
    rw [token_bind, token_eq_nextToken, if_pos start,
      bind_of_ok (constant_complete.exact _ previous notes constant trivial)]
    rfl
  · have other : nextToken (ls ++ rest) ≠ .word "const" := by
      rcases method_starts method rest with start | ⟨text, other, start⟩
      · rw [start]
        simp
      · rw [start]
        simpa using other
    obtain ⟨m, hmethod, alike⟩ := method_complete ls _ rest previous notes method trivial
    refine ⟨.method m, ?_, congrArg Member.method alike⟩
    unfold member
    rw [token_bind, token_eq_nextToken, if_neg other, bind_of_ok hmethod]
    rfl

end Grammar

end IdlFrontEnd
