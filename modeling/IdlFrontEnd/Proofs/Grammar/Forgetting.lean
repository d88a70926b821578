import IdlFrontEnd.Proofs.Grammar.Acceptance
import IdlFrontEnd.Proofs.Placeless

/-!
# Reading without places

A rule decides by tokens alone: on lexemes without places and comments it takes the same lexemes,
rejects for the same cause, reports the same and gives the same value, all without places and
comments. The combinators pass this on, recovery included, so lists of lexemes with the same tokens
are read as the same file with the same messages.
-/
namespace IdlFrontEnd

/-! ## What the parts of a declaration are without places -/

def Member.placeless : Member → Member
  | .method m => .method m.placeless
  | .constant c => .constant c.placeless

theorem TypeExpr.placeless_annotate (t : TypeExpr) (set : AnnotationSet) :
    (t.annotate set).placeless = t.placeless.annotate set := by
  obtain ⟨h, ps⟩ := t
  simp [annotate, placeless, mapHeads_eq, TypeHead.placeless]

theorem Declaration.placeless_ofMembers (location : Location) (name comments : String)
    (oneway : Bool) (members : List Member) (package : List String) :
    (ofMembers location name comments oneway members package).placeless =
      ofMembers .nowhere name "" oneway (members.map Member.placeless) package := by
  have methods (ms : List Member) : (ms.filterMap Member.method?).map Method.placeless =
      (ms.map Member.placeless).filterMap Member.method? :=
    Grammar.map_filterMap_comm (fun m => by cases m <;> rfl) ms
  have constants : (members.filterMap Member.constant?).map Constant.placeless =
      (members.map Member.placeless).filterMap Member.constant? :=
    Grammar.map_filterMap_comm (fun m => by cases m <;> rfl) members
  simp only [ofMembers, placeless, Body.placeless, ← methods, ← constants, List.map_map]
  rfl

def Lexeme.placeless (l : Lexeme) : Lexeme := ⟨l.token, .nowhere, ""⟩

def ImportStatement.placeless (i : ImportStatement) : ImportStatement :=
  { i with location := .nowhere }

namespace Grammar

def Item.placeless : Item → Item
  | .importing statement => .importing { statement with location := .nowhere }
  | .declaring d => .declaring d.placeless

def SameTokens (ms ls : List Lexeme) : Prop := ms.map Lexeme.token = ls.map Lexeme.token

theorem SameTokens.placeless {ls ms : List Lexeme} (same : SameTokens ls ms) :
    ls.map Lexeme.placeless = ms.map Lexeme.placeless := by
  have tokens (ks : List Lexeme) :
      ks.map Lexeme.placeless = (ks.map Lexeme.token).map fun t => ⟨t, .nowhere, ""⟩ := by
    simp [Lexeme.placeless]
  rw [tokens, tokens, same]

def Reading.placeless (r : Reading) : Reading :=
  ⟨r.rest.map Lexeme.placeless, .nowhere, r.notes.map Diagnostic.placeless⟩

theorem Reading.placeless_current (r : Reading) : r.placeless.current = r.current.placeless := by
  obtain ⟨rest, previous, notes⟩ := r
  cases rest <;> rfl

theorem Reading.placeless_token (r : Reading) : r.placeless.token = r.token := by
  unfold Reading.token
  rw [placeless_current]
  rfl

theorem Reading.placeless_take (r : Reading) : r.placeless.take = r.take.placeless := by
  obtain ⟨rest, previous, notes⟩ := r
  cases rest <;> rfl

def Rejection.placeless (e : Rejection) : Rejection := ⟨.nowhere, e.cause⟩

/-- A result without places: those of its value `view` takes away, those of its error `forget`. -/
def placelessly {ε α β : Type} (forget : ε → ε) (view : α → β) :
    EStateM.Result ε Reading α → EStateM.Result ε Reading β
  | .ok a r => .ok (view a) r.placeless
  | .error e r => .error (forget e) r.placeless

/-- On lexemes without places `y` does what `x` does on lexemes with places. -/
def Forgets {ε α β : Type} (forget : ε → ε) (view : α → β) (x : EStateM ε Reading α)
    (y : EStateM ε Reading β) : Prop :=
  ∀ r, y r.placeless = placelessly forget view (x r)

/-! ## Combinators -/

namespace Forgets

variable {ε α β γ δ : Type} {forget : ε → ε} {view : α → β} {view' : γ → δ}

theorem pure {a : α} {b : β} (same : b = view a) :
    Forgets forget view (Pure.pure a) (Pure.pure b) := by
  rw [same]
  exact fun _ => rfl

theorem bind {x : EStateM ε Reading α} {y : EStateM ε Reading β} {f : α → EStateM ε Reading γ}
    {g : β → EStateM ε Reading δ} (first : Forgets forget view x y)
    (next : ∀ a, Forgets forget view' (f a) (g (view a))) :
    Forgets forget view' (x >>= f) (y >>= g) := by
  intro r
  have own := first r
  cases h : x r with
  | ok a mid =>
    rw [h] at own
    rw [bind_of_ok h, bind_of_ok own]
    exact next a mid
  | error e mid =>
    rw [h] at own
    rw [bind_of_error h, bind_of_error own]
    rfl

theorem ite {c d : Prop} [Decidable c] [Decidable d] (same : c ↔ d)
    {x x' : EStateM ε Reading α} {y y' : EStateM ε Reading β} (yes : Forgets forget view x y)
    (no : Forgets forget view x' y') :
    Forgets forget view (if c then x else x') (if d then y else y') := by
  by_cases h : c
  · rw [if_pos h, if_pos (same.1 h)]
    exact yes
  · rw [if_neg h, if_neg fun other => h (same.2 other)]
    exact no

theorem manyWhile {more : Token → Bool} {item : EStateM ε Reading α} {item' : EStateM ε Reading β}
    (each : Forgets forget view item item') :
    Forgets forget (List.map view) (manyWhile more item) (manyWhile more item') := by
  intro r
  induction hn : r.rest.length using Nat.strongRecOn generalizing r with
  | ind n ih =>
    have length (s : Reading) : s.placeless.rest.length = s.rest.length := List.length_map ..
    have own := each r
    rw [Grammar.manyWhile, Grammar.manyWhile, r.placeless_token, own]
    split
    · cases item r with
      | error e next => rfl
      | ok a next =>
        dsimp only [placelessly]
        rw [length, length]
        split
        next shorter =>
          rw [ih next.rest.length (hn ▸ shorter) next rfl]
          cases Grammar.manyWhile more item next <;> rfl
        · rfl
    · rfl

section
variable {x : Rule α} {y : Rule β}

theorem current : Forgets Rejection.placeless Lexeme.placeless current current := by
  intro r
  unfold Grammar.current
  rw [r.placeless_current]
  rfl

theorem token : Forgets Rejection.placeless id token token := by
  intro r
  unfold Grammar.token
  rw [r.placeless_token]
  rfl

theorem take : Forgets Rejection.placeless id take take := by
  intro r
  unfold Grammar.take
  rw [r.placeless_take]
  rfl

theorem reject (cause : Cause) : Forgets Rejection.placeless view (reject cause) (reject cause) := by
  intro r
  unfold Grammar.reject
  rw [r.placeless_current]
  rfl

theorem expected (wanted : String) :
    Forgets Rejection.placeless view (expected wanted) (expected wanted) := by
  intro r
  unfold Grammar.expected
  rw [r.placeless_token]
  exact reject _ r

theorem spanFrom (first : Lexeme) :
    Forgets Rejection.placeless (fun _ => .nowhere) (spanFrom first) (spanFrom first.placeless) :=
  fun _ => rfl

theorem reported {found : α × List Diagnostic} {found' : β × List Diagnostic}
    (same : found' = (view found.1, found.2.map Diagnostic.placeless)) :
    Forgets Rejection.placeless view (reported found) (reported found') := by
  intro r
  rw [same]
  change EStateM.Result.ok _ (r.placeless.report _) = .ok _ (r.report _).placeless
  simp [Reading.report, Reading.placeless]

theorem accept (t : Token) : Forgets Rejection.placeless id (accept t) (accept t) :=
  bind token fun _ => ite Iff.rfl (bind take fun _ => pure rfl) (pure rfl)

theorem expect (t : Token) : Forgets Rejection.placeless id (expect t) (expect t) :=
  bind token fun _ => ite Iff.rfl take (expected _)

theorem separated (each : Forgets Rejection.placeless view x y) :
    Forgets Rejection.placeless (List.map view) (separated x) (separated y) :=
  bind each fun _ => bind (manyWhile (bind take fun _ => each)) fun _ => pure rfl

theorem toRule {x : Total α} {y : Total β} (h : Forgets id view x y) :
    Forgets Rejection.placeless view x.toRule y.toRule := by
  intro r
  have own := h r
  unfold Total.toRule
  rw [own]
  cases x r with
  | ok a next => rfl
  | error e => cases e

theorem attempt {recover : List Lexeme → List Lexeme}
    (blind : ∀ ls, recover (ls.map Lexeme.placeless) = (recover ls).map Lexeme.placeless)
    (each : Forgets Rejection.placeless view x y) :
    Forgets id (Option.map view) (attempt recover x) (attempt recover y) := by
  intro r
  have own := each r
  unfold Grammar.attempt
  rw [own]
  cases x r with
  | ok a next => rfl
  | error e next => simp [placelessly, Reading.placeless, Reading.report, Rejection.placeless, blind]

end

/-! ## Recovery -/

theorem afterDeclaration (depth : Nat) (moved : Bool) (ls : List Lexeme) :
    afterDeclarationFrom depth moved (ls.map Lexeme.placeless) =
      (afterDeclarationFrom depth moved ls).map Lexeme.placeless := by
  induction ls generalizing depth moved with
  | nil => rfl
  | cons l ls ih =>
    have own : l.placeless.token = l.token := rfl
    rw [List.map_cons]
    unfold afterDeclarationFrom
    rw [own]
    split
    · rfl
    · exact ih _ _
    · split
      · rfl
      · exact ih _ _
    · split
      · rfl
      split
      · rfl
      · exact ih _ _

theorem afterMember (depth : Int) (ls : List Lexeme) :
    afterMemberFrom depth (ls.map Lexeme.placeless) =
      (afterMemberFrom depth ls).map Lexeme.placeless := by
  induction ls generalizing depth with
  | nil => rfl
  | cons l ls ih =>
    have own : l.placeless.token = l.token := rfl
    rw [List.map_cons]
    unfold afterMemberFrom
    rw [own]
    split
    · rfl
    · exact ih _
    · exact ih _
    · exact ih _
    · split
      · rfl
      · exact ih _
    · split
      · rfl
      · exact ih _

/-! ## Names, types and literals -/

theorem identifier : Forgets Rejection.placeless id identifier identifier := by
  refine bind token fun t => ?_
  cases t with
  | word text => exact ite Iff.rfl (expected _) (bind take fun _ => pure rfl)
  | number | string | mark | eof => exact expected _

theorem qualifiedNameWith (comments : String) :
    Forgets Rejection.placeless QualifiedName.placeless (qualifiedNameWith comments)
      (qualifiedNameWith "") := by
  refine bind current fun first => bind identifier fun term => ?_
  refine bind (manyWhile (bind take fun _ => identifier)) fun terms => ?_
  exact bind (spanFrom first) fun place => pure (by simp [QualifiedName.placeless])

theorem qualifiedName :
    Forgets Rejection.placeless QualifiedName.placeless qualifiedName qualifiedName :=
  bind current fun l => qualifiedNameWith l.comments

theorem annotationNamed (location : Location) (name : String) :
    Grammar.annotationNamed .nowhere name =
      ((Grammar.annotationNamed location name).1,
        (Grammar.annotationNamed location name).2.map Diagnostic.placeless) := by
  unfold Grammar.annotationNamed
  cases Annotation.ofName? name <;> rfl

theorem annotation : Forgets Rejection.placeless id annotation annotation := by
  refine bind current fun first => bind take fun _ => bind token fun t => ?_
  cases t with
  | word name =>
    exact bind take fun _ => bind (spanFrom first) fun place => reported (annotationNamed place name)
  | number | string | mark | eof => exact expected _

theorem annotations : Forgets Rejection.placeless id annotations annotations :=
  bind (manyWhile annotation) fun _ => pure (by rw [List.map_id]; rfl)

theorem typeParams {type : Rule TypeExpr}
    (each : Forgets Rejection.placeless TypeExpr.placeless type type) :
    Forgets Rejection.placeless (Option.map (List.map TypeExpr.placeless)) (typeParams type)
      (typeParams type) :=
  bind (accept _) fun _ => ite Iff.rfl
    (bind (separated each) fun _ => bind (expect _) fun _ => pure rfl) (pure rfl)

theorem arrayMark : Forgets Rejection.placeless id arrayMark arrayMark :=
  bind (accept _) fun _ => ite Iff.rfl (bind (expect _) fun _ => pure rfl) (pure rfl)

theorem typeWithin (depth : Nat) :
    Forgets Rejection.placeless TypeExpr.placeless (typeWithin depth) (typeWithin depth) := by
  induction depth with
  | zero => exact expected _
  | succ depth ih =>
    refine bind current fun first => bind annotations fun set => bind qualifiedName fun name => ?_
    refine bind (typeParams ih) fun params => bind arrayMark fun isArray => ?_
    refine bind (spanFrom first) fun place => pure ?_
    simp [TypeExpr.placeless, TypeExpr.mapHeads_eq, TypeHead.fresh, TypeHead.placeless,
      QualifiedName.placeless, QualifiedName.dotName, Lexeme.placeless]

theorem typeExpr : Forgets Rejection.placeless TypeExpr.placeless typeExpr typeExpr := by
  intro r
  have length : r.placeless.rest.length = r.rest.length := List.length_map ..
  unfold Grammar.typeExpr
  rw [length]
  exact typeWithin r.rest.length r

theorem ofNumber (location : Location) (text : String) :
    Literal.ofNumber .nowhere text =
      ((Literal.ofNumber location text).1.placeless,
        (Literal.ofNumber location text).2.map Diagnostic.placeless) := by
  have numeral (value : Option Int) : Literal.numeral .nowhere text value =
      ((Literal.numeral location text value).1.placeless,
        (Literal.numeral location text value).2.map Diagnostic.placeless) := by
    cases value <;> rfl
  unfold Literal.ofNumber
  split
  · exact numeral _
  · exact numeral _

theorem ofString (location : Location) (quoted : String) :
    Literal.ofString .nowhere quoted =
      ((Literal.ofString location quoted).1.placeless,
        (Literal.ofString location quoted).2.map Diagnostic.placeless) := by
  unfold Literal.ofString
  split <;> rfl

theorem literal : Forgets Rejection.placeless Literal.placeless literal literal := by
  refine bind current fun l => ?_
  dsimp only [Lexeme.placeless]
  cases l.token with
  | number text => exact bind take fun _ => reported (ofNumber _ text)
  | string quoted => exact bind take fun _ => reported (ofString _ quoted)
  | word | mark | eof => exact expected _

/-! ## Members -/

theorem defaultValue :
    Forgets Rejection.placeless (Option.map Literal.placeless) defaultValue defaultValue :=
  bind (accept _) fun _ => ite Iff.rfl (bind literal fun _ => pure rfl) (pure rfl)

theorem field : Forgets Rejection.placeless Field.placeless field field :=
  bind current fun first => bind typeExpr fun _ => bind identifier fun _ =>
    bind defaultValue fun _ => bind (expect _) fun _ => bind (spanFrom first) fun _ => pure rfl

theorem constant : Forgets Rejection.placeless Constant.placeless constant constant :=
  bind current fun first => bind (expect _) fun _ => bind typeExpr fun _ =>
    bind identifier fun _ => bind (expect _) fun _ => bind literal fun _ =>
      bind (expect _) fun _ => bind (spanFrom first) fun _ => pure rfl

theorem direction : Forgets Rejection.placeless id direction direction := by
  refine bind token fun t => ?_
  cases t with
  | word text =>
    dsimp only [id]
    cases Direction.ofKeyword? text with
    | some d => exact bind take fun _ => pure rfl
    | none => exact pure rfl
  | number | string | mark | eof => exact pure rfl

/-- Annotations belong to a type whatever its places are. -/
theorem withAnnotations (t : TypeExpr) (before : AnnotationSet) :
    Grammar.withAnnotations t.placeless before = (Grammar.withAnnotations t before).placeless := by
  have own : t.placeless.head.annotations = t.head.annotations := by
    rw [TypeExpr.placeless_head]
    rfl
  unfold Grammar.withAnnotations
  rw [TypeExpr.placeless_annotate, own]

theorem argument : Forgets Rejection.placeless Argument.placeless argument argument := by
  refine bind current fun first => bind annotations fun set => bind direction fun d => ?_
  refine bind typeExpr fun t => bind identifier fun name => bind (spanFrom first) fun _ => pure ?_
  simp [Argument.placeless, withAnnotations]

theorem argumentList :
    Forgets Rejection.placeless (List.map Argument.placeless) argumentList argumentList := by
  have none : Forgets Rejection.placeless (List.map Argument.placeless)
      (Pure.pure [] : Rule (List Argument)) (Pure.pure []) := pure rfl
  refine bind (expect _) fun _ => bind token fun _ => ite Iff.rfl ?_ ?_
  · exact bind none fun _ => bind (expect _) fun _ => pure rfl
  · exact bind (separated argument) fun _ => bind (expect _) fun _ => pure rfl

theorem methodId : Forgets Rejection.placeless id methodId methodId := by
  refine bind (accept _) fun _ => ite Iff.rfl (bind token fun t => ?_) (pure rfl)
  cases t with
  | number text =>
    dsimp only [id]
    cases Text.decimal? text with
    | some n => exact bind take fun _ => pure rfl
    | none => exact reject _
  | word | string | mark | eof => exact expected _

theorem method : Forgets Rejection.placeless Method.placeless method method := by
  refine bind current fun first => bind annotations fun set => bind (accept _) fun oneway => ?_
  refine bind typeExpr fun t => bind identifier fun name => bind argumentList fun arguments => ?_
  refine bind methodId fun id => bind (expect _) fun _ => bind (spanFrom first) fun _ => pure ?_
  simp [Method.placeless, withAnnotations, Lexeme.placeless]

theorem member : Forgets Rejection.placeless Member.placeless member member :=
  bind token fun _ => ite Iff.rfl (bind constant fun _ => pure rfl) (bind method fun _ => pure rfl)

/-! ## Declarations and files -/

theorem body {item : Rule α} {item' : Rule β} (each : Forgets Rejection.placeless view item item') :
    Forgets Rejection.placeless (List.map view) (body item) (body item') := by
  refine bind (toRule (manyWhile (attempt (afterMember 0) each))) fun found => ?_
  refine bind (expect _) fun _ => pure ?_
  exact (map_filterMap_comm (fun a => by cases a <;> rfl) found).symm

theorem parcelable (first : Lexeme) (package : List String) :
    Forgets Rejection.placeless Declaration.placeless (parcelable first package)
      (parcelable first.placeless package) := by
  refine bind (expect _) fun _ => bind (qualifiedNameWith _) fun name => bind (accept _) fun _ => ?_
  refine ite Iff.rfl (bind (spanFrom first) fun _ => pure rfl) (bind (accept _) fun _ => ?_)
  refine ite Iff.rfl ?_ (bind (accept _) fun _ => ite Iff.rfl ?_ (expected _))
  · refine bind token fun t => ?_
    cases t with
    | string quoted =>
      exact bind take fun _ => bind (expect _) fun _ => bind (spanFrom first) fun _ => pure rfl
    | word | number | mark | eof => exact expected _
  · exact bind (body field) fun _ => bind (spanFrom first) fun _ => pure rfl

theorem interface (first : Lexeme) (package : List String) :
    Forgets Rejection.placeless Declaration.placeless (interface first package)
      (interface first.placeless package) := by
  refine bind (accept _) fun _ => bind (expect _) fun _ => bind identifier fun _ => ?_
  refine bind (expect _) fun _ => bind (body member) fun _ => bind (spanFrom first) fun _ => ?_
  exact pure (Declaration.placeless_ofMembers ..).symm

theorem declaration (package : List String) :
    Forgets Rejection.placeless Declaration.placeless (declaration package)
      (declaration package) := by
  have other : Forgets Rejection.placeless Declaration.placeless
      (Grammar.expected "'parcelable' or 'interface'" : Rule Declaration)
      (Grammar.expected "'parcelable' or 'interface'") := expected _
  refine bind current fun first => bind annotations fun _ => bind token fun _ => ?_
  refine ite Iff.rfl (bind (parcelable first package) fun _ => pure rfl) (ite Iff.rfl ?_ ?_)
  · exact bind (interface first package) fun _ => pure rfl
  · exact bind other fun _ => pure rfl

theorem importStatement :
    Forgets Rejection.placeless ImportStatement.placeless importStatement importStatement :=
  bind current fun first => bind (expect _) fun _ => bind qualifiedName fun _ =>
    bind (expect _) fun _ => bind (spanFrom first) fun _ => pure rfl

theorem item (package : List String) :
    Forgets Rejection.placeless Item.placeless (item package) (item package) :=
  bind token fun _ => ite Iff.rfl (bind importStatement fun _ => pure rfl)
    (bind (declaration package) fun _ => pure rfl)

theorem packageClause :
    Forgets id (Option.map QualifiedName.placeless) packageClause packageClause := by
  have statement :
      Forgets Rejection.placeless QualifiedName.placeless packageStatement packageStatement :=
    bind (expect _) fun _ => bind qualifiedName fun _ => bind (expect _) fun _ => pure rfl
  intro r
  unfold Grammar.packageClause
  rw [r.placeless_token]
  split
  · exact attempt (afterDeclaration 0 false) statement r
  · rfl

end Forgets

/-! ## Files -/

def SourceFile.placeless (file : SourceFile) : SourceFile :=
  ⟨file.package.map QualifiedName.placeless, file.imports.map ImportStatement.placeless,
    file.types.map Declaration.placeless⟩

theorem Forgets.sourceFile : Forgets id SourceFile.placeless sourceFile sourceFile := by
  refine bind packageClause fun package => ?_
  have terms : ((package.map QualifiedName.placeless).map QualifiedName.terms).getD [] =
      (package.map QualifiedName.terms).getD [] := by
    cases package <;> rfl
  dsimp only
  rw [terms]
  refine bind (manyWhile (attempt (afterDeclaration 0 false) (item _))) fun found => pure ?_
  have items : (found.map (Option.map Item.placeless)).filterMap id =
      (found.filterMap id).map Item.placeless :=
    (map_filterMap_comm (fun a => by cases a <;> rfl) found).symm
  have imports (is : List Item) : (is.map Item.placeless).filterMap Item.statement? =
      (is.filterMap Item.statement?).map ImportStatement.placeless :=
    (map_filterMap_comm (fun i => by cases i <;> rfl) is).symm
  have types (is : List Item) : (is.map Item.placeless).filterMap Item.declaration? =
      (is.filterMap Item.declaration?).map Declaration.placeless :=
    (map_filterMap_comm (fun i => by cases i <;> rfl) is).symm
  simp only [items, imports, types, SourceFile.placeless]

/-- Lexemes without places are read as the file without places, with the same reports. -/
theorem ofLexemes_placeless (ls : List Lexeme) :
    SourceFile.ofLexemes (ls.map Lexeme.placeless) =
      ((SourceFile.ofLexemes ls).1.placeless,
        (SourceFile.ofLexemes ls).2.map Diagnostic.placeless) := by
  have own := Forgets.sourceFile ⟨ls, .nowhere, []⟩
  have start : (⟨ls, .nowhere, []⟩ : Reading).placeless = ⟨ls.map Lexeme.placeless, .nowhere, []⟩ :=
    rfl
  rw [start] at own
  unfold SourceFile.ofLexemes
  rw [own]
  cases sourceFile ⟨ls, .nowhere, []⟩ with
  | ok file r => rfl
  | error e => cases e

end Grammar

end IdlFrontEnd
