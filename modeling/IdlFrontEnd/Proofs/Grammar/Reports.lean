import IdlFrontEnd.Grammar.SourceFile
import IdlFrontEnd.Proofs.Diagnostic
import IdlFrontEnd.Proofs.Step

/-!
# What the grammar reports

Whatever the lexemes are, a rule reports mistakes in the text only, whether it gives a value or
rejects, and what it rejects with is such a mistake too. The combinators pass this on, and so each
rule has it from its parts.
-/
namespace IdlFrontEnd.Grammar

def Rejection.IsMistake (e : Rejection) : Prop := e.cause.isSyntactic = true

/-- A log of mistakes is left, and the error, if there is one, is what `blame` says. -/
def LeavesMistakes {ε α : Type} (blame : ε → Prop) : EStateM.Result ε Reading α → Prop
  | .ok _ next => AllMistakes next.notes
  | .error e next => AllMistakes next.notes ∧ blame e

/-- The rule leaves a log of mistakes one, and its errors are what `blame` says. -/
def OnlyMistakes {ε α : Type} (blame : ε → Prop) (rule : EStateM ε Reading α) : Prop :=
  ∀ r, AllMistakes r.notes → LeavesMistakes blame (rule r)

namespace OnlyMistakes

/-! ## Combinators -/

section
variable {ε α β : Type} {blame : ε → Prop}

theorem pure (a : α) : OnlyMistakes blame (Pure.pure a : EStateM ε Reading α) :=
  fun _ mistakes => mistakes

theorem bind {x : EStateM ε Reading α} {f : α → EStateM ε Reading β}
    (first : OnlyMistakes blame x) (next : ∀ a, OnlyMistakes blame (f a)) :
    OnlyMistakes blame (x >>= f) := by
  intro r mistakes
  have left := first r mistakes
  cases h : x r with
  | ok a mid =>
    rw [h] at left
    rw [bind_of_ok h]
    exact next a mid left
  | error e mid =>
    rw [h] at left
    rw [bind_of_error h]
    exact left

theorem ite {c : Prop} [Decidable c] {x y : EStateM ε Reading α}
    (yes : OnlyMistakes blame x) (no : OnlyMistakes blame y) :
    OnlyMistakes blame (if c then x else y) := by
  split
  · exact yes
  · exact no

theorem manyWhile {more : Token → Bool} {item : EStateM ε Reading α}
    (each : OnlyMistakes blame item) : OnlyMistakes blame (manyWhile more item) := by
  intro r mistakes
  induction hn : r.rest.length using Nat.strongRecOn generalizing r with
  | ind n ih =>
    have first := each r mistakes
    rw [Grammar.manyWhile]
    split
    · cases hitem : item r with
      | error e mid =>
        rw [hitem] at first
        exact first
      | ok a mid =>
        rw [hitem] at first
        dsimp only
        split
        next shorter =>
          have others := ih mid.rest.length (hn ▸ shorter) mid first rfl
          cases hrest : Grammar.manyWhile more item mid with
          | error e last =>
            rw [hrest] at others
            exact others
          | ok as last =>
            rw [hrest] at others
            exact others
        · exact first
    · exact mistakes

end

section
variable {α : Type} {blame : Rejection → Prop}

theorem current : OnlyMistakes blame current := fun _ mistakes => mistakes

theorem token : OnlyMistakes blame token := fun _ mistakes => mistakes

theorem take : OnlyMistakes blame take := by
  intro r mistakes
  obtain ⟨rest, previous, notes⟩ := r
  cases rest <;> exact mistakes

theorem spanFrom (first : Lexeme) : OnlyMistakes blame (spanFrom first) :=
  fun _ mistakes => mistakes

theorem reported {found : α × List Diagnostic} (h : AllMistakes found.2) :
    OnlyMistakes blame (reported found) :=
  fun _ mistakes => mistakes.append h

theorem accept (t : Token) : OnlyMistakes blame (accept t) :=
  bind token fun _ => ite (bind take fun _ => pure true) (pure false)

theorem separated {item : Rule α} (each : OnlyMistakes blame item) :
    OnlyMistakes blame (separated item) :=
  bind each fun _ => bind (manyWhile (bind take fun _ => each)) fun _ => pure _

end

section
variable {α : Type}

theorem reject {cause : Cause} (mistake : cause.isSyntactic = true) :
    OnlyMistakes Rejection.IsMistake (reject cause : Rule α) :=
  fun _ mistakes => ⟨mistakes, mistake⟩

theorem expected (wanted : String) :
    OnlyMistakes Rejection.IsMistake (expected wanted : Rule α) :=
  fun _ mistakes => ⟨mistakes, rfl⟩

theorem expect (t : Token) : OnlyMistakes Rejection.IsMistake (expect t) :=
  bind token fun _ => ite take (expected t.text)

/-- What an attempt makes of a rejection is a report of a mistake. -/
theorem attempt (recover : List Lexeme → List Lexeme) {item : Rule α}
    (each : OnlyMistakes Rejection.IsMistake item) :
    OnlyMistakes (fun _ => True) (attempt recover item) := by
  intro r mistakes
  have first := each r mistakes
  unfold Grammar.attempt
  cases hitem : item r with
  | ok a next =>
    rw [hitem] at first
    exact first
  | error e next =>
    rw [hitem] at first
    exact first.1.append (.single rfl first.2)

theorem toRule {rule : Total α} (h : OnlyMistakes (fun _ => True) rule) :
    OnlyMistakes Rejection.IsMistake rule.toRule := by
  intro r mistakes
  have first := h r mistakes
  unfold Total.toRule
  cases hrule : rule r with
  | ok a next =>
    rw [hrule] at first
    exact first
  | error e => cases e

end

/-! ## Names, types and literals -/

theorem identifier : OnlyMistakes Rejection.IsMistake identifier := by
  refine bind token fun t => ?_
  cases t with
  | word text => exact ite (expected _) (bind take fun _ => pure _)
  | number | string | mark | eof => exact expected _

theorem qualifiedNameWith (comments : String) :
    OnlyMistakes Rejection.IsMistake (qualifiedNameWith comments) :=
  bind current fun first => bind identifier fun _ =>
    bind (manyWhile (bind take fun _ => identifier)) fun _ => bind (spanFrom first) fun _ => pure _

theorem qualifiedName : OnlyMistakes Rejection.IsMistake qualifiedName :=
  bind current fun _ => qualifiedNameWith _

theorem annotation : OnlyMistakes Rejection.IsMistake annotation := by
  refine bind current fun first => bind take fun _ => bind token fun t => ?_
  cases t with
  | word name =>
    refine bind take fun _ => bind (spanFrom first) fun location => reported ?_
    unfold annotationNamed
    cases Annotation.ofName? name with
    | some a => exact .nil
    | none => exact .single rfl rfl
  | number | string | mark | eof => exact expected _

theorem annotations : OnlyMistakes Rejection.IsMistake annotations :=
  bind (manyWhile annotation) fun _ => pure _

theorem typeParams {type : Rule TypeExpr} (each : OnlyMistakes Rejection.IsMistake type) :
    OnlyMistakes Rejection.IsMistake (typeParams type) :=
  bind (accept _) fun _ =>
    ite (bind (separated each) fun _ => bind (expect _) fun _ => pure _) (pure _)

theorem arrayMark : OnlyMistakes Rejection.IsMistake arrayMark :=
  bind (accept _) fun _ => ite (bind (expect _) fun _ => pure _) (pure _)

theorem typeWithin (depth : Nat) : OnlyMistakes Rejection.IsMistake (typeWithin depth) := by
  induction depth with
  | zero => exact expected _
  | succ depth ih =>
    exact bind current fun first => bind annotations fun _ => bind qualifiedName fun _ =>
      bind (typeParams ih) fun _ => bind arrayMark fun _ => bind (spanFrom first) fun _ => pure _

theorem typeExpr : OnlyMistakes Rejection.IsMistake typeExpr :=
  fun r mistakes => typeWithin r.rest.length r mistakes

theorem numeral_mistakes (location : Location) (text : String) :
    AllMistakes (Literal.ofNumber location text).2 := by
  unfold Literal.ofNumber
  split
  · unfold Literal.ofHexadecimal
    cases Text.hexadecimal? text with
    | some n => exact .nil
    | none => exact .single rfl rfl
  · unfold Literal.ofDecimal
    cases Text.decimal? text with
    | some n => exact .nil
    | none => exact .single rfl rfl

theorem string_mistakes (location : Location) (quoted : String) :
    AllMistakes (Literal.ofString location quoted).2 := by
  unfold Literal.ofString
  split
  · exact .single rfl rfl
  · exact .nil

theorem literal : OnlyMistakes Rejection.IsMistake literal := by
  refine bind current fun lexeme => ?_
  cases lexeme.token with
  | number text => exact bind take fun _ => reported (numeral_mistakes _ text)
  | string quoted => exact bind take fun _ => reported (string_mistakes _ quoted)
  | word | mark | eof => exact expected _

/-! ## Members -/

theorem defaultValue : OnlyMistakes Rejection.IsMistake defaultValue :=
  bind (accept _) fun _ => ite (bind literal fun _ => pure _) (pure _)

theorem field : OnlyMistakes Rejection.IsMistake field :=
  bind current fun first => bind typeExpr fun _ => bind identifier fun _ =>
    bind defaultValue fun _ => bind (expect _) fun _ => bind (spanFrom first) fun _ => pure _

theorem constant : OnlyMistakes Rejection.IsMistake constant :=
  bind current fun first => bind (expect _) fun _ => bind typeExpr fun _ =>
    bind identifier fun _ => bind (expect _) fun _ => bind literal fun _ =>
      bind (expect _) fun _ => bind (spanFrom first) fun _ => pure _

theorem direction : OnlyMistakes Rejection.IsMistake direction := by
  refine bind token fun t => ?_
  cases t with
  | word text =>
    dsimp only
    cases Direction.ofKeyword? text with
    | some d => exact bind take fun _ => pure _
    | none => exact pure _
  | number | string | mark | eof => exact pure _

theorem argument : OnlyMistakes Rejection.IsMistake argument :=
  bind current fun first => bind annotations fun _ => bind direction fun _ =>
    bind typeExpr fun _ => bind identifier fun _ => bind (spanFrom first) fun _ => pure _

theorem argumentList : OnlyMistakes Rejection.IsMistake argumentList := by
  refine bind (expect _) fun _ => bind token fun _ => ?_
  exact ite (bind (pure _) fun _ => bind (expect _) fun _ => pure _)
    (bind (separated argument) fun _ => bind (expect _) fun _ => pure _)

theorem methodId : OnlyMistakes Rejection.IsMistake methodId := by
  refine bind (accept _) fun _ => ite (bind token fun t => ?_) (pure _)
  cases t with
  | number text =>
    dsimp only
    cases Text.decimal? text with
    | some n => exact bind take fun _ => pure _
    | none => exact reject rfl
  | word | string | mark | eof => exact expected _

theorem method : OnlyMistakes Rejection.IsMistake method :=
  bind current fun first => bind annotations fun _ => bind (accept _) fun _ =>
    bind typeExpr fun _ => bind identifier fun _ => bind argumentList fun _ =>
      bind methodId fun _ => bind (expect _) fun _ => bind (spanFrom first) fun _ => pure _

theorem member : OnlyMistakes Rejection.IsMistake member :=
  bind token fun _ => ite (bind constant fun _ => pure _) (bind method fun _ => pure _)

/-! ## Declarations and files -/

theorem body {α : Type} {item : Rule α} (each : OnlyMistakes Rejection.IsMistake item) :
    OnlyMistakes Rejection.IsMistake (body item) :=
  bind (toRule (manyWhile (attempt _ each))) fun _ => bind (expect _) fun _ => pure _

theorem parcelable (first : Lexeme) (package : List String) :
    OnlyMistakes Rejection.IsMistake (parcelable first package) := by
  refine bind (expect _) fun _ => bind (qualifiedNameWith _) fun _ => bind (accept _) fun _ => ?_
  refine ite (bind (spanFrom first) fun _ => pure _) (bind (accept _) fun _ => ite ?_ ?_)
  · refine bind token fun t => ?_
    cases t with
    | string quoted =>
      exact bind take fun _ => bind (expect _) fun _ => bind (spanFrom first) fun _ => pure _
    | word | number | mark | eof => exact expected _
  · refine bind (accept _) fun _ => ite ?_ (expected _)
    exact bind (body field) fun _ => bind (spanFrom first) fun _ => pure _

theorem interface (first : Lexeme) (package : List String) :
    OnlyMistakes Rejection.IsMistake (interface first package) :=
  bind (accept _) fun _ => bind (expect _) fun _ => bind identifier fun _ =>
    bind (expect _) fun _ => bind (body member) fun _ => bind (spanFrom first) fun _ => pure _

theorem declaration (package : List String) :
    OnlyMistakes Rejection.IsMistake (declaration package) := by
  refine bind current fun first => bind annotations fun _ => bind token fun _ => ?_
  refine ite (bind (parcelable first package) fun _ => pure _) (ite ?_ ?_)
  · exact bind (interface first package) fun _ => pure _
  · exact bind (expected _) fun _ => pure _

theorem packageClause : OnlyMistakes (fun _ => True) packageClause := by
  have statement : OnlyMistakes Rejection.IsMistake packageStatement :=
    bind (expect _) fun _ => bind qualifiedName fun _ => bind (expect _) fun _ => pure _
  intro r mistakes
  unfold Grammar.packageClause
  split
  · exact attempt afterDeclaration statement r mistakes
  · exact mistakes

theorem importStatement : OnlyMistakes Rejection.IsMistake importStatement :=
  bind current fun first => bind (expect _) fun _ => bind qualifiedName fun _ =>
    bind (expect _) fun _ => bind (spanFrom first) fun _ => pure _

theorem item (package : List String) : OnlyMistakes Rejection.IsMistake (item package) :=
  bind token fun _ =>
    ite (bind importStatement fun _ => pure _) (bind (declaration package) fun _ => pure _)

theorem sourceFile : OnlyMistakes (fun _ => True) sourceFile :=
  bind packageClause fun _ => bind (manyWhile (attempt _ (item _))) fun _ => pure _

end OnlyMistakes

/-- Reading a list of lexemes reports mistakes only. -/
theorem ofLexemes_mistakes (lexemes : List Lexeme) :
    AllMistakes (SourceFile.ofLexemes lexemes).2 := by
  have mistakes := OnlyMistakes.sourceFile ⟨lexemes, .nowhere, []⟩ .nil
  unfold SourceFile.ofLexemes
  cases h : sourceFile ⟨lexemes, .nowhere, []⟩ with
  | ok file r =>
    rw [h] at mistakes
    exact mistakes
  | error e => cases e

end IdlFrontEnd.Grammar
