import IdlFrontEnd.Literal

/-!
# Numerals read back

A number is shown in decimal, with a minus sign if it is negative. Read as a literal it is the same
number, as long as it has 32 bits; it is never taken for a hexadecimal one.
-/
namespace IdlFrontEnd

namespace Text

theorem digitValue?_of_isDigit {c : Char} (digit : c.isDigit = true) :
    digitValue? 10 c = some (c.toNat - '0'.toNat) := by
  have range : '0' ≤ c ∧ c ≤ '9' := by
    simpa [Char.isDigit, Char.le_def] using digit
  have small := (Char.isDigit_iff_toNat.1 digit).2
  have below : c.toNat - '0'.toNat < 10 := by
    simp at small ⊢
    omega
  unfold digitValue?
  simp only [range, and_self, if_true, Option.filter_some, decide_eq_true below]

theorem digitsFrom?_of_digits {cs : List Char} (digits : ∀ c ∈ cs, c.isDigit = true)
    (value : Nat) : digitsFrom? 10 value cs = some (Nat.ofDigitChars 10 cs value) := by
  induction cs generalizing value with
  | nil => rfl
  | cons c cs ih =>
    have others := ih fun d member => digits d (List.mem_cons_of_mem c member)
    rw [digitsFrom?, digitValue?_of_isDigit (digits c List.mem_cons_self), Option.bind_some, others,
      Nat.ofDigitChars_cons, Nat.mul_comm]

theorem isDigit_of_mem_repr {n : Nat} {c : Char} (member : c ∈ n.repr.toList) :
    c.isDigit = true := by
  rw [Nat.toList_repr] at member
  exact Nat.isDigit_of_mem_toDigits (by decide) (by decide) member

theorem repr_ne_nil (n : Nat) : n.repr.toList ≠ [] := by
  rw [Nat.toList_repr]
  exact Nat.toDigits_ne_nil

theorem digits?_repr (n : Nat) : digits? 10 n.repr.toList = some n := by
  have value : Nat.ofDigitChars 10 n.repr.toList 0 = n := by
    rw [Nat.toList_repr]
    exact Nat.ofDigitChars_toDigits (by decide) (by decide)
  rw [digits?, if_neg (by simp),
    digitsFrom?_of_digits (fun _ => isDigit_of_mem_repr), value]

theorem signed?_toString (n : Int) : signed? (toString n).toList = some n := by
  cases n with
  | ofNat m =>
    have digits := digits?_repr m
    have each := @isDigit_of_mem_repr m
    have shown : toString (Int.ofNat m) = m.repr := rfl
    rw [shown]
    generalize m.repr.toList = cs at digits each
    unfold signed?
    split
    · exact absurd (each List.mem_cons_self) (by decide)
    · exact absurd (each List.mem_cons_self) (by decide)
    · rw [digits]
      rfl
  | negSucc m =>
    have shown : (toString (Int.negSucc m)).toList = '-' :: (m + 1).repr.toList := by
      rw [Int.toString_eq_repr, Int.repr, String.toList_append]
      rfl
    rw [shown, signed?, digits?_repr]
    rfl

theorem decimal?_toString {n : Int} (low : int32Min ≤ n) (high : n ≤ int32Max) :
    decimal? (toString n) = some n := by
  rw [decimal?, signed?_toString, Option.filter_some, if_pos (by simp [low, high])]

/-- A shown number is one digit or a minus sign with digits after it. -/
theorem toString_digits (n : Int) :
    ∃ c cs, (toString n).toList = c :: cs ∧ (∀ d ∈ cs, d.isDigit = true) ∧
      (c.isDigit = true ∨ c = '-' ∧ cs ≠ []) := by
  cases n with
  | ofNat m =>
    obtain ⟨c, cs, some⟩ := List.exists_cons_of_ne_nil (repr_ne_nil m)
    have each := @isDigit_of_mem_repr m
    rw [some] at each
    exact ⟨c, cs, some, fun d member => each (List.mem_cons_of_mem c member),
      .inl (each List.mem_cons_self)⟩
  | negSucc m =>
    refine ⟨'-', (m + 1).repr.toList, ?_, fun _ => isDigit_of_mem_repr, .inr ⟨rfl, repr_ne_nil _⟩⟩
    rw [Int.toString_eq_repr, Int.repr, String.toList_append]
    rfl

theorem hexDigits?_toString (n : Int) : hexDigits? (toString n).toList = none := by
  obtain ⟨c, cs, shown, digits, -⟩ := toString_digits n
  rw [shown]
  unfold hexDigits?
  split
  next same =>
    obtain ⟨-, rfl⟩ := List.cons.inj same
    exact absurd (digits 'x' List.mem_cons_self) (by decide)
  next same =>
    obtain ⟨-, rfl⟩ := List.cons.inj same
    exact absurd (digits 'X' List.mem_cons_self) (by decide)
  · rfl

end Text

/-- A number of 32 bits is the value of the literal that shows it. -/
theorem Literal.ofNumber_toString {n : Int} (low : Text.int32Min ≤ n) (high : n ≤ Text.int32Max)
    (location : Location) : ofNumber location (toString n) = (⟨location, .int n⟩, []) := by
  rw [ofNumber, Text.hexDigits?_toString, if_neg (by simp), ofDecimal,
    Text.decimal?_toString low high]
  rfl

end IdlFrontEnd
