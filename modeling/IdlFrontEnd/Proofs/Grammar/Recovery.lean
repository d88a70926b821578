import IdlFrontEnd.Proofs.Grammar.Progress

/-!
# Where recovery stops in a body

Recovery from a broken member keeps one count for braces and parentheses, so a parenthesis that is
opened and not closed hides the brace that closes the body. The lexemes up to that brace decide what
comes of it: if none of them stops recovery, the count at the brace is that of the parentheses alone,
and the brace stops it exactly if no parenthesis is left open there.
-/
namespace IdlFrontEnd.Grammar

/-- How many more of these lexemes are the first mark than the second one. -/
def surplus (opening closing : Mark) (ls : List Lexeme) : Int :=
  ls.countP (·.token = .mark opening) - ls.countP (·.token = .mark closing)

/-- The braces that these lexemes open, less those that they close. -/
def openBraces (ls : List Lexeme) : Int := surplus .openBrace .closeBrace ls

def openParens (ls : List Lexeme) : Int := surplus .openParen .closeParen ls

/-- The lexeme is the brace that closes the body in which these lexemes stand before it: of all
closing braces it is the first one that is met with no brace open. Only braces count for this. -/
structure ClosesBody (inside : List Lexeme) (close : Lexeme) : Prop where
  brace : close.token = .mark .closeBrace
  level : openBraces inside = 0
  first : ∀ i, ∀ bound : i < inside.length, inside[i].token = .mark .closeBrace →
    0 < openBraces (inside.take i)

/-- A token at which recovery stops that has come to it with this count. -/
def Stops (depth : Int) (t : Token) : Prop :=
  t = .eof ∨ depth ≤ 0 ∧ (t = .mark .semicolon ∨ t = .mark .closeBrace)

/-- None of these lexemes stops recovery that has come to the first one with this count. -/
def Passes (depth : Int) (ls : List Lexeme) : Prop :=
  ∀ i, ∀ bound : i < ls.length,
    ¬ Stops (depth + (openBraces (ls.take i) + openParens (ls.take i))) ls[i].token

instance (depth : Int) (t : Token) : Decidable (Stops depth t) :=
  inferInstanceAs (Decidable (_ ∨ _))

instance (depth : Int) (ls : List Lexeme) : Decidable (Passes depth ls) :=
  inferInstanceAs (Decidable (∀ i, ∀ _ : i < ls.length, _))

/-! ## Counting -/

theorem surplus_append (opening closing : Mark) (ls ms : List Lexeme) :
    surplus opening closing (ls ++ ms) = surplus opening closing ls + surplus opening closing ms := by
  unfold surplus
  rw [List.countP_append, List.countP_append]
  omega

/-- What a token adds to the count of recovery. -/
def weight : Token → Int
  | .mark .openBrace | .mark .openParen => 1
  | .mark .closeBrace | .mark .closeParen => -1
  | _ => 0

theorem opened_singleton (l : Lexeme) : openBraces [l] + openParens [l] = weight l.token := by
  obtain ⟨t, location, comments⟩ := l
  cases t with
  | mark m => cases m <;> rfl
  | word | number | string | eof => rfl

theorem opened_cons (l : Lexeme) (ls : List Lexeme) :
    openBraces (l :: ls) + openParens (l :: ls) =
      weight l.token + (openBraces ls + openParens ls) := by
  have braces := surplus_append .openBrace .closeBrace [l] ls
  have parens := surplus_append .openParen .closeParen [l] ls
  rw [List.singleton_append] at braces parens
  rw [← opened_singleton]
  unfold openBraces openParens
  omega

/-- The count of recovery is never further from where it started than there were lexemes, so 32 bits
hold it for fewer than 2 ^ 31 of them. -/
theorem natAbs_opened_le (ls : List Lexeme) :
    (openBraces ls + openParens ls).natAbs ≤ ls.length := by
  have small (t : Token) : (weight t).natAbs ≤ 1 := by
    unfold weight
    split <;> decide
  induction ls with
  | nil => exact Nat.le_refl 0
  | cons l ls ih =>
    have first := small l.token
    rw [opened_cons, List.length_cons]
    omega

/-- One lexeme that does not stop recovery changes its count by its weight. -/
theorem afterMemberFrom_pass {depth : Int} {l : Lexeme} (passes : ¬ Stops depth l.token)
    (rest : List Lexeme) :
    afterMemberFrom depth (l :: rest) = afterMemberFrom (depth + weight l.token) rest := by
  obtain ⟨t, location, comments⟩ := l
  unfold Stops at passes
  cases t with
  | eof => exact absurd (.inl rfl) passes
  | word | number | string => simp [afterMemberFrom, weight]
  | mark m =>
    cases m with
    | semicolon | closeBrace =>
      have deep : ¬ depth ≤ 0 := fun shallow => passes (.inr ⟨shallow, by simp⟩)
      simp [afterMemberFrom, weight, deep, Int.sub_eq_add_neg]
    | openBrace | openParen | closeParen => rfl
    | _ => simp [afterMemberFrom, weight]

theorem afterMemberFrom_stop {depth : Int} {l : Lexeme} (stops : Stops depth l.token)
    (rest : List Lexeme) :
    afterMemberFrom depth (l :: rest) = rest ∨ afterMemberFrom depth (l :: rest) = l :: rest := by
  rw [afterMemberFrom]
  rcases stops with token | ⟨shallow, token | token⟩
  · exact .inr (by rw [token])
  · exact .inl (by simp [token, shallow])
  · exact .inr (by simp [token, shallow])

/-! ## Stopping -/

theorem passes_cons_iff {depth : Int} {l : Lexeme} {ls : List Lexeme} :
    Passes depth (l :: ls) ↔ ¬ Stops depth l.token ∧ Passes (depth + weight l.token) ls := by
  have start : depth + (openBraces [] + openParens []) = depth := Int.add_zero depth
  have shift (i : Nat) : depth + (openBraces ((l :: ls).take (i + 1)) +
      openParens ((l :: ls).take (i + 1))) =
        depth + weight l.token + (openBraces (ls.take i) + openParens (ls.take i)) := by
    rw [List.take_succ_cons, opened_cons, Int.add_assoc]
  constructor
  · intro passes
    refine ⟨start ▸ passes 0 (Nat.zero_lt_succ _), fun i bound => ?_⟩
    rw [← shift]
    exact passes (i + 1) (Nat.succ_lt_succ bound)
  · rintro ⟨first, others⟩ i bound
    cases i with
    | zero => rwa [List.take_zero, start]
    | succ i =>
      rw [shift]
      exact others i (Nat.lt_of_succ_lt_succ bound)

/-- Lexemes that do not stop recovery only change its count. -/
theorem afterMemberFrom_of_passes {depth : Int} {ls : List Lexeme} (passes : Passes depth ls)
    (rest : List Lexeme) :
    afterMemberFrom depth (ls ++ rest) =
      afterMemberFrom (depth + (openBraces ls + openParens ls)) rest := by
  induction ls generalizing depth with
  | nil => rw [List.nil_append, show openBraces [] + openParens [] = 0 from rfl, Int.add_zero]
  | cons l ls ih =>
    obtain ⟨first, others⟩ := passes_cons_iff.1 passes
    rw [List.cons_append, afterMemberFrom_pass first, ih others, opened_cons, Int.add_assoc]

/-- One among these lexemes that stops recovery stops it before all that follows them. -/
theorem afterMemberFrom_of_not_passes {depth : Int} {ls : List Lexeme}
    (stops : ¬ Passes depth ls) (rest : List Lexeme) :
    ∃ more, afterMemberFrom depth (ls ++ rest) = more ++ rest := by
  induction ls generalizing depth with
  | nil => exact absurd (fun i bound => absurd bound (Nat.not_lt_zero i)) stops
  | cons l ls ih =>
    by_cases here : Stops depth l.token
    · rcases afterMemberFrom_stop here (ls ++ rest) with own | own
      · exact ⟨ls, own⟩
      · exact ⟨l :: ls, own⟩
    · rw [List.cons_append, afterMemberFrom_pass here]
      exact ih fun others => stops (passes_cons_iff.2 ⟨here, others⟩)

/-- Recovery stops at the brace that closes the body, or before it, unless nothing before the brace
stops it and a parenthesis is left open there: then it takes the brace and leaves the body. -/
theorem afterMember_stays_iff {inside : List Lexeme} {close : Lexeme}
    (closes : ClosesBody inside close) (rest : List Lexeme) :
    (∃ more, afterMember (inside ++ close :: rest) = more ++ close :: rest) ↔
      (Passes 0 inside → openParens inside ≤ 0) := by
  unfold afterMember
  by_cases passes : Passes 0 inside
  · have level := closes.level
    rw [afterMemberFrom_of_passes passes, afterMemberFrom, closes.brace]
    dsimp only
    by_cases shallow : openParens inside ≤ 0
    · rw [if_pos (by omega)]
      exact ⟨fun _ _ => shallow, fun _ => ⟨[], rfl⟩⟩
    · rw [if_neg (by omega)]
      refine ⟨?_, fun stays => absurd (stays passes) shallow⟩
      rintro ⟨more, left⟩
      -- what is left behind the brace cannot have the brace in front of it
      have fewer := (afterMemberFrom_onward (0 + (openBraces inside + openParens inside) - 1)
        rest).length_le
      rw [left, List.length_append, List.length_cons] at fewer
      omega
  · exact ⟨fun _ all => absurd all passes, fun _ => afterMemberFrom_of_not_passes passes _⟩

/-- Lexemes of these tokens, with no places and comments. -/
def bare (tokens : List Token) : List Lexeme := tokens.map fun t => ⟨t, .nowhere, ""⟩

/-- Braces within the body and a parenthesis too many: recovery goes over the braces and stops at the
end of the body. -/
theorem strayParen_stays :
    let inside := bare [.mark .openParen, .mark .openBrace, .word "a", .mark .semicolon,
      .mark .closeBrace, .mark .closeParen, .mark .closeParen]
    let close : Lexeme := ⟨.mark .closeBrace, .nowhere, ""⟩
    ClosesBody inside close ∧ Passes 0 inside ∧
      ∃ more, afterMember (inside ++ close :: bare [.eof]) = more ++ close :: bare [.eof] := by
  intro inside close
  have closes : ClosesBody inside close := ⟨rfl, by decide, by decide⟩
  exact ⟨closes, by decide, (afterMember_stays_iff closes (bare [.eof])).2 fun _ => by decide⟩

/-- `interface I { int f(( } parcelable P;`: the method is rejected at the second parenthesis, and the
brace behind it closes the body. Recovery takes the brace, and both declarations are lost. -/
theorem openParen_hides_brace :
    let rest := bare [.word "parcelable", .word "P", .mark .semicolon, .eof]
    let inside := bare [.mark .openParen]
    let close : Lexeme := ⟨.mark .closeBrace, .nowhere, ""⟩
    let file := SourceFile.ofLexemes (bare [.word "interface", .word "I", .mark .openBrace,
      .word "int", .word "f", .mark .openParen] ++ (inside ++ close :: rest))
    ClosesBody inside close ∧
      (¬ ∃ more, afterMember (inside ++ close :: rest) = more ++ close :: rest) ∧
      file.1.types.length = 0 ∧
      file.2.map Diagnostic.message =
        ["syntax error: expected identifier, got '('",
          "syntax error: expected '\x7d', got end of file"] := by
  intro rest inside close file
  have closes : ClosesBody inside close := ⟨rfl, by decide, by decide⟩
  refine ⟨closes, ?_, by decide +kernel, by decide +kernel⟩
  have short : (afterMember (inside ++ close :: rest)).length < (close :: rest).length := by decide
  rintro ⟨more, left⟩
  rw [left, List.length_append] at short
  omega

end IdlFrontEnd.Grammar
