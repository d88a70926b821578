import IdlFrontEnd.Proofs.Grammar.Recovery
import IdlFrontEnd.Proofs.Grammar.SourceFile
import IdlFrontEnd.Proofs.Grammar.Statement
import Mathlib.Data.List.Forall2

/-!
# Bodies with broken members

A body is taken apart into chunks, each a member that is read whole and in silence or a broken one
that ends in its only semicolon. The rule rejects a broken one before its semicolon, and recovery
from there stops right behind that semicolon, because nothing on the way opens a parenthesis or
touches a brace. How many parentheses are closed on the way does not matter: below zero the count
stops at a semicolon as well. So every chunk is taken whole, and each broken one costs only itself.
-/
namespace IdlFrontEnd.Grammar

/-! ## Chunks -/

/-- The lexemes read alone. -/
def Reading.of (ls : List Lexeme) : Reading := ⟨ls, .nowhere, []⟩

/-- A part of a body: the rule for a member takes all of it in silence, or the rule rejects it, and
then it holds no brace, ends in its only semicolon, and opens no parenthesis from where it is
rejected on. With it goes the member, if there is one, and what is reported. -/
inductive IsChunk {α : Type} (item : Rule α) : List Lexeme → Option α → List Diagnostic → Prop
  | accepted {ls : List Lexeme} {a : α} {next : Reading} (given : item (.of ls) = .ok a next)
      (whole : next.rest = []) (silent : next.notes = []) : IsChunk item ls (some a) []
  | broken {ls : List Lexeme} {e : Rejection} {next : Reading}
      (rejected : item (.of ls) = .error e next) (statement : IsStatement ls)
      (braceless : ∀ l ∈ ls, l.token ∉ [.mark .openBrace, .mark .closeBrace, .eof])
      (flat : ∀ l ∈ next.rest, l.token ≠ .mark .openParen) :
      IsChunk item ls none (next.notes ++ [.atPlace e.location e.cause])

structure Chunk {α : Type} (item : Rule α) where
  lexemes : List Lexeme
  value : Option α
  told : List Diagnostic
  isChunk : IsChunk item lexemes value told

/-- The broken chunks are those that are reported. -/
theorem Chunk.told_eq_nil_iff {α : Type} {item : Rule α} (chunk : Chunk item) :
    chunk.told = [] ↔ chunk.value.isSome = true := by
  obtain ⟨ls, value, told, isChunk⟩ := chunk
  cases isChunk <;> simp

instance decidableIsStatement : (ls : List Lexeme) → Decidable (IsStatement ls)
  | [] => .isFalse nofun
  | l :: ls =>
    match decEq l.token (.mark .semicolon), ls with
    | .isTrue semicolon, [] => .isTrue (.last semicolon)
    | .isTrue semicolon, _ :: _ => .isFalse fun | .cons other _ => other semicolon
    | .isFalse other, ls =>
      match decidableIsStatement ls with
      | .isTrue others => .isTrue (.cons other others)
      | .isFalse not => .isFalse fun
        | .last semicolon => other semicolon
        | .cons _ others => not others

/-- The lexemes as a chunk, if they are one. -/
def Chunk.of? {α : Type} (item : Rule α) (ls : List Lexeme) : Option (Chunk item) :=
  match h : item (.of ls) with
  | .ok a next =>
    if done : next.rest = [] ∧ next.notes = [] then
      some ⟨ls, some a, [], .accepted h done.1 done.2⟩
    else none
  | .error e next =>
    if plain : IsStatement ls ∧
        (∀ l ∈ ls, l.token ∉ [.mark .openBrace, .mark .closeBrace, .eof]) ∧
        ∀ l ∈ next.rest, l.token ≠ .mark .openParen then
      some ⟨ls, none, next.notes ++ [.atPlace e.location e.cause],
        .broken h plain.1 plain.2.1 plain.2.2⟩
    else none

/-! ## One chunk -/

/-- A rule for the members of a body, and what they derive. -/
structure ReadsMembers {α : Type} (D : List Lexeme → α → Prop) (item : Rule α) : Prop where
  finishes : ∀ behind earlier, Finishes behind earlier false item
  moves : Moves true Any item
  sound : Sound D item
  opens : ∀ ls a rest, D ls a → OpensPhrase (nextToken (ls ++ rest))
  closed : ∀ ls a, D ls a → ∃ l ∈ ls, l.token = .mark .semicolon

theorem field_reads : ReadsMembers IsField field where
  finishes := field_finishes
  moves := Moves.field
  sound := field_sound
  opens _ _ rest derived := field_opens derived rest
  closed := by
    rintro _ _ ⟨rfl, _, _, _, closing⟩
    exact ⟨_, by simp, closing⟩

theorem member_reads : ReadsMembers IsMember member where
  finishes := member_finishes
  moves := Moves.member
  sound := member_sound
  opens _ _ rest derived := member_opens derived rest
  closed := by
    rintro _ _ (⟨rfl, _, _, _, _, _, closing⟩ | ⟨rfl, _, _, _, _, _, _, closing⟩)
    · exact ⟨_, by simp, closing⟩
    · exact ⟨_, by simp, closing⟩

section
variable {α : Type} {D : List Lexeme → α → Prop} {item : Rule α} {ls : List Lexeme}
  {value : Option α} {told : List Diagnostic}

/-- A statement alone and with more behind it. -/
theorem IsStatement.beside (statement : IsStatement ls) (rest : List Lexeme) (previous : Location)
    (notes : List Diagnostic) : Beside rest notes false (.of ls) ⟨ls ++ rest, previous, notes⟩ :=
  ⟨statement, rfl, nofun, (List.append_nil notes).symm⟩

/-- What derives an accepted chunk. -/
theorem derived_of_accepted (reads : ReadsMembers D item) {a : α} {next : Reading}
    (given : item (.of ls) = .ok a next) (whole : next.rest = []) (silent : next.notes = []) :
    D ls a := by
  obtain ⟨taken, took, derived⟩ := reads.sound _ a next given silent
  have same : ls = taken := by simpa [Reading.of, whole] using took.rest
  rwa [same]

/-- An accepted chunk is a statement too: the first semicolon in it ends it. -/
theorem IsChunk.statement (reads : ReadsMembers D item) (chunk : IsChunk item ls value told) :
    IsStatement ls := by
  cases chunk with
  | broken rejected statement braceless flat => exact statement
  | accepted given whole silent =>
    have derived := derived_of_accepted reads given whole silent
    obtain ⟨first, behind, rfl, statement⟩ := exists_statement (reads.closed _ _ derived)
    have both := reads.finishes behind [] _ _ (statement.beside behind .nowhere [])
    change Finished behind [] _ (item (.of (first ++ behind))) at both
    rw [given] at both
    generalize item (.of first) = result at both
    cases both with
    | ok =>
      rw [show behind = [] from whole, List.append_nil]
      exact statement

/-- No chunk starts where a body ends. -/
theorem IsChunk.starts (reads : ReadsMembers D item) (chunk : IsChunk item ls value told)
    (rest : List Lexeme) : inBody (nextToken (ls ++ rest)) = true := by
  have statement := chunk.statement reads
  cases chunk with
  | accepted given whole silent =>
    have start := reads.opens _ _ rest (derived_of_accepted reads given whole silent)
    simp [inBody, start.ne_mark (show Mark.at ≠ .closeBrace by decide), start.ne_eof]
  | broken rejected statement braceless flat =>
    cases statement with
    | last semicolon => simp [nextToken, semicolon, inBody]
    | cons other others =>
      have first := braceless _ List.mem_cons_self
      simp only [List.mem_cons, not_or] at first
      simp [nextToken, inBody, first]

/-- Recovery runs to the semicolon if nothing before it opens a parenthesis or touches a brace,
however many parentheses are closed. -/
theorem afterMemberFrom_statement (statement : IsStatement ls)
    (plain : ∀ l ∈ ls, l.token ∉ [.mark .openBrace, .mark .closeBrace, .eof, .mark .openParen])
    {depth : Int} (shallow : depth ≤ 0) (rest : List Lexeme) :
    afterMemberFrom depth (ls ++ rest) = rest := by
  induction statement generalizing depth with
  | @last l semicolon =>
    rw [List.singleton_append, afterMemberFrom, semicolon]
    exact if_pos ⟨shallow, rfl⟩
  | @cons l ls other others ih =>
    obtain ⟨own, later⟩ := List.forall_mem_cons.1 plain
    simp only [List.mem_cons, List.not_mem_nil, or_false, not_or] at own
    obtain ⟨notOpen, notClose, notEnd, notParen⟩ := own
    have passes : ¬ Stops depth l.token := by simp [Stops, other, notClose, notEnd]
    have lighter : weight l.token ≤ 0 := by
      unfold weight
      split <;> first | contradiction | decide
    rw [List.cons_append, afterMemberFrom_pass passes]
    exact ih later (by omega)

/-- A chunk is taken whole, wherever it stands. -/
theorem attempt_chunk (reads : ReadsMembers D item) (chunk : IsChunk item ls value told)
    (rest : List Lexeme) (previous : Location) (notes : List Diagnostic) :
    ∃ place, attempt afterMember item ⟨ls ++ rest, previous, notes⟩ =
      .ok value ⟨rest, place, notes ++ told⟩ := by
  have statement := chunk.statement reads
  have both := reads.finishes rest notes _ _ (statement.beside rest previous notes)
  unfold attempt
  cases chunk with
  | @accepted a next given whole silent =>
    rw [given] at both
    generalize item ⟨ls ++ rest, previous, notes⟩ = result at both
    cases both with
    | @ok _ place told =>
      rw [show told = [] from silent]
      exact ⟨place, rfl⟩
  | @broken e next rejected _ braceless flat =>
    have moved := reads.moves (.of ls) trivial
    rw [rejected] at both moved
    generalize item ⟨ls ++ rest, previous, notes⟩ = result at both
    obtain ⟨taken, parts, -⟩ : Onward false ls next.rest := by
      cases moved with
      | error onward => exact onward
    cases both with
    | @error _ _ next' beside =>
      have plain : ∀ l ∈ next.rest,
          l.token ∉ [.mark .openBrace, .mark .closeBrace, .eof, .mark .openParen] := by
        intro l member
        have inside : l ∈ ls := by
          rw [parts]
          exact List.mem_append_right taken member
        have own := braceless l inside
        simp only [List.mem_cons, List.not_mem_nil, or_false, not_or] at own ⊢
        exact ⟨own.1, own.2.1, own.2.2, flat l member⟩
      have resumed : afterMember next'.rest = rest := by
        rw [beside.rest]
        exact afterMemberFrom_statement beside.statement plain (Int.le_refl 0) rest
      refine ⟨next'.previous, ?_⟩
      simp only [Reading.report, resumed, beside.notes, List.append_assoc]

end

/-! ## All chunks of a body -/

section
variable {ε α β : Type} {rule : EStateM ε Reading α}

/-- Wherever these lexemes stand, the rule takes all of them, reports `told` and gives a value that
is as `gives` says. -/
def Consumes (rule : EStateM ε Reading α) (ls : List Lexeme) (told : List Diagnostic)
    (gives : α → Prop) : Prop :=
  ∀ rest previous notes, ∃ a place,
    rule ⟨ls ++ rest, previous, notes⟩ = .ok a ⟨rest, place, notes ++ told⟩ ∧ gives a

/-- A loop over lexemes that come in parts for its rule goes through them part by part. -/
theorem manyWhile_consumes (more : Token → Bool) {lexemes : β → List Lexeme}
    {told : β → List Diagnostic} {gives : β → α → Prop} {xs : List β}
    (each : ∀ x ∈ xs, Consumes rule (lexemes x) (told x) (gives x))
    (starts : ∀ x ∈ xs, ∀ rest, more (nextToken (lexemes x ++ rest)) = true)
    {rest : List Lexeme} (stop : more (nextToken rest) = false) (previous : Location)
    (notes : List Diagnostic) :
    ∃ as place, manyWhile more rule ⟨xs.flatMap lexemes ++ rest, previous, notes⟩ =
      .ok as ⟨rest, place, notes ++ xs.flatMap told⟩ ∧ List.Forall₂ gives xs as := by
  induction xs generalizing previous notes with
  | nil =>
    refine ⟨[], previous, ?_, .nil⟩
    rw [manyWhile, token_eq_nextToken]
    simp [stop]
  | cons x xs ih =>
    obtain ⟨own, others⟩ := List.forall_mem_cons.1 each
    obtain ⟨start, later⟩ := List.forall_mem_cons.1 starts
    obtain ⟨a, mid, hfirst, first⟩ := own (xs.flatMap lexemes ++ rest) previous notes
    obtain ⟨as, place, hothers, all⟩ := ih others later mid (notes ++ told x)
    have some : lexemes x ≠ [] := by
      intro none
      have go := start rest
      rw [none, List.nil_append, stop] at go
      cases go
    have shorter : (xs.flatMap lexemes ++ rest).length <
        (lexemes x ++ (xs.flatMap lexemes ++ rest)).length := by
      have positive := List.length_pos_iff.2 some
      simp only [List.length_append]
      omega
    refine ⟨a :: as, place, ?_, .cons first all⟩
    rw [List.flatMap_cons, List.flatMap_cons, List.append_assoc, manyWhile, token_eq_nextToken,
      if_pos (start _), hfirst]
    dsimp only
    rw [if_pos shorter, hothers, List.append_assoc]

end

/-- A body of chunks gives exactly the members of the accepted ones, in order, and reports exactly
what there is to report for the others. -/
theorem body_chunks {α : Type} {D : List Lexeme → α → Prop} {item : Rule α}
    (reads : ReadsMembers D item) (chunks : List (Chunk item)) {right : Lexeme}
    (closing : right.token = .mark .closeBrace) (rest : List Lexeme) (previous : Location)
    (notes : List Diagnostic) :
    body item ⟨chunks.flatMap (·.lexemes) ++ right :: rest, previous, notes⟩ =
      .ok (chunks.filterMap (·.value))
        ⟨rest, right.location, notes ++ chunks.flatMap (·.told)⟩ := by
  have each (c : Chunk item) :
      Consumes (attempt afterMember item) c.lexemes c.told (c.value = ·) := by
    intro rest previous notes
    obtain ⟨place, h⟩ := attempt_chunk reads c.isChunk rest previous notes
    exact ⟨c.value, place, h, rfl⟩
  have stop : inBody (nextToken (right :: rest)) = false := by
    simp [nextToken, closing, inBody]
  obtain ⟨found, place, hloop, values⟩ := manyWhile_consumes inBody
    (fun c (_ : c ∈ chunks) => each c) (fun c _ => c.isChunk.starts reads) stop previous notes
  have same : chunks.map (·.value) = found := by
    rwa [← List.forall₂_eq_eq_eq, List.forall₂_map_left_iff]
  change (Total.toRule (manyWhile inBody (attempt afterMember item)) >>= _) _ = _
  rw [bind_of_ok (toRule_eq_ok.2 hloop), bind_of_ok (expect_present closing), ← same,
    List.filterMap_map]
  rfl

end IdlFrontEnd.Grammar
