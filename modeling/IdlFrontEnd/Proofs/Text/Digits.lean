import IdlFrontEnd.Proofs.Text.Numeral
import Mathlib.Data.Int.ModEq
import Mathlib.Data.List.Forall2
import Mathlib.Data.Nat.Digits.Defs

/-!
# What a numeral is worth

Digits in a row stand for a number in positional notation. A numeral is read as this number in full,
however many digits it has; only then its size is looked at. A bit pattern of 32 bits stands for the
one number in the signed range that is congruent to it.
-/
namespace IdlFrontEnd.Text

/-- `c` is the digit `d` of this base. Letters count on from ten, in either case. -/
def IsDigitOf (base : Nat) (c : Char) (d : Nat) : Prop :=
  d < base ∧ (c = d.digitChar ∨ c = d.digitChar.toUpper)

/-- There is at least one digit, and `n` is the number they stand for, the highest place first. -/
structure Spells (base : Nat) (cs : List Char) (n : Nat) : Prop where
  some : cs ≠ []
  value : ∃ ds, List.Forall₂ (IsDigitOf base) cs ds ∧ Nat.ofDigits base ds.reverse = n

/-- Reading a digit depends on the base only through the bound on its value. -/
theorem digitValue?_eq_some_iff_hex {base : Nat} (bounded : base ≤ 16) {c : Char} {d : Nat} :
    digitValue? base c = some d ↔ d < base ∧ digitValue? 16 c = some d := by
  unfold digitValue?
  simp only [Option.filter_eq_some_iff, decide_eq_true_eq]
  constructor
  · rintro ⟨value, small⟩
    exact ⟨small, value, by omega⟩
  · rintro ⟨small, value, -⟩
    exact ⟨value, small⟩

theorem ascii_of_digitValue? {c : Char} {d : Nat} (value : digitValue? 16 c = some d) :
    c.toNat < 128 := by
  unfold digitValue? at value
  simp only [Char.le_def, UInt32.le_iff_toNat_le] at value
  obtain ⟨value, -⟩ := Option.filter_eq_some_iff.1 value
  change c.val.toNat < 128
  split at value
  next range => exact Nat.lt_of_le_of_lt range.2 (by decide)
  · split at value
    next range => exact Nat.lt_of_le_of_lt range.2 (by decide)
    · split at value
      next range => exact Nat.lt_of_le_of_lt range.2 (by decide)
      · cases value

theorem digitValue?_eq_some_iff {base : Nat} (bounded : base ≤ 16) {c : Char} {d : Nat} :
    digitValue? base c = some d ↔ IsDigitOf base c d := by
  rw [digitValue?_eq_some_iff_hex bounded]
  constructor
  · rintro ⟨small, value⟩
    have table : ∀ n < 128, ∀ d ∈ digitValue? 16 (Char.ofNat n),
        Char.ofNat n = d.digitChar ∨ Char.ofNat n = d.digitChar.toUpper := by decide
    have found := table c.toNat (ascii_of_digitValue? value)
    rw [Char.ofNat_toNat] at found
    exact ⟨small, found d value⟩
  · rintro ⟨small, found⟩
    have table : ∀ d < 16, digitValue? 16 d.digitChar = some d ∧
        digitValue? 16 d.digitChar.toUpper = some d := by decide
    obtain ⟨lower, upper⟩ := table d (by omega)
    refine ⟨small, ?_⟩
    rcases found with rfl | rfl
    · exact lower
    · exact upper

/-! ## Numerals -/

theorem digitsFrom?_eq_some_iff {base : Nat} (bounded : base ≤ 16) {cs : List Char} {m n : Nat} :
    digitsFrom? base m cs = some n ↔ ∃ ds, List.Forall₂ (IsDigitOf base) cs ds ∧
      m * base ^ ds.length + Nat.ofDigits base ds.reverse = n := by
  induction cs generalizing m with
  | nil => simp [digitsFrom?, List.forall₂_nil_left_iff]
  | cons c cs ih =>
    -- one more digit in front moves the value read so far up by one place
    have step (d : Nat) (ds : List Nat) :
        m * base ^ (d :: ds).length + Nat.ofDigits base (d :: ds).reverse =
          (m * base + d) * base ^ ds.length + Nat.ofDigits base ds.reverse := by
      rw [List.reverse_cons, Nat.ofDigits_append, Nat.ofDigits_singleton, List.length_reverse,
        List.length_cons, Nat.pow_succ']
      ring
    rw [digitsFrom?, Option.bind_eq_some_iff]
    constructor
    · rintro ⟨d, digit, others⟩
      obtain ⟨ds, each, value⟩ := ih.1 others
      exact ⟨d :: ds, .cons ((digitValue?_eq_some_iff bounded).1 digit) each,
        (step d ds).trans value⟩
    · rintro ⟨ds, each, value⟩
      cases each with
      | @cons _ d _ ds digit each =>
        exact ⟨d, (digitValue?_eq_some_iff bounded).2 digit,
          ih.2 ⟨ds, each, (step d ds).symm.trans value⟩⟩

theorem digits?_eq_some_iff {base : Nat} (bounded : base ≤ 16) {cs : List Char} {n : Nat} :
    digits? base cs = some n ↔ Spells base cs n := by
  unfold digits?
  split
  next none =>
    have absent : cs = [] := by simpa using none
    constructor
    · intro h
      cases h
    · intro spelled
      exact absurd absent spelled.some
  next some =>
    rw [digitsFrom?_eq_some_iff bounded]
    simp only [Nat.zero_mul, Nat.zero_add]
    exact ⟨fun value => ⟨by simpa using some, value⟩, Spells.value⟩

/-- Only digits stand in a numeral. -/
theorem Spells.not_mem {base : Nat} {cs : List Char} {n : Nat} (spelled : Spells base cs n)
    (bounded : base ≤ 16) {c : Char} (other : digitValue? base c = none) : c ∉ cs := by
  obtain ⟨ds, each, -⟩ := spelled.value
  clear spelled
  induction each with
  | nil => simp
  | @cons d _ _ _ digit _ ih =>
    intro member
    rcases List.mem_cons.1 member with rfl | later
    · rw [(digitValue?_eq_some_iff bounded).2 digit] at other
      cases other
    · exact ih later

theorem signed?_eq_some_iff {cs : List Char} (unsigned : '+' ∉ cs) {v : Int} :
    signed? cs = some v ↔ (∃ n : Nat, Spells 10 cs n ∧ v = n) ∨
      ∃ (digits : List Char) (n : Nat), cs = '-' :: digits ∧ Spells 10 digits n ∧ v = -n := by
  have digits {cs : List Char} {n : Nat} := @digits?_eq_some_iff 10 (by decide) cs n
  constructor
  · intro signed
    unfold signed? at signed
    split at signed
    next others =>
      cases read : digits? 10 others with
      | none =>
        rw [read] at signed
        cases signed
      | some n =>
        rw [read] at signed
        cases signed
        exact .inr ⟨others, n, rfl, digits.1 read, rfl⟩
    · exact absurd List.mem_cons_self unsigned
    · cases read : digits? 10 cs with
      | none =>
        rw [read] at signed
        cases signed
      | some n =>
        rw [read] at signed
        cases signed
        exact .inl ⟨n, digits.1 read, rfl⟩
  · rintro (⟨n, spelled, rfl⟩ | ⟨others, n, rfl, spelled, rfl⟩)
    · have minus : '-' ∉ cs := spelled.not_mem (by decide) (by decide)
      unfold signed?
      split
      · exact absurd List.mem_cons_self minus
      · exact absurd List.mem_cons_self unsigned
      · rw [digits.2 spelled]
        rfl
    · rw [signed?, digits.2 spelled]
      rfl

/-- A decimal numeral never opens like a hexadecimal one. -/
theorem hexDigits?_of_spells {cs : List Char} {n : Nat} (spelled : Spells 10 cs n) :
    hexDigits? cs = none := by
  have lower : 'x' ∉ cs := spelled.not_mem (by decide) (by decide)
  have upper : 'X' ∉ cs := spelled.not_mem (by decide) (by decide)
  unfold hexDigits?
  split
  · exact absurd (by simp) lower
  · exact absurd (by simp) upper
  · rfl

theorem hexDigits?_minus (cs : List Char) : hexDigits? ('-' :: cs) = none := rfl

theorem pattern?_of_unsigned {cs : List Char} (unsigned : '+' ∉ cs) :
    pattern? cs = digits? 16 cs := by
  unfold pattern?
  split
  · exact absurd List.mem_cons_self unsigned
  · rfl

theorem hexDigits?_eq_some_iff {cs digits : List Char} :
    hexDigits? cs = some digits ↔ ∃ x, (x = 'x' ∨ x = 'X') ∧ cs = '0' :: x :: digits := by
  constructor
  · intro opened
    unfold hexDigits? at opened
    split at opened
    · cases opened
      exact ⟨'x', .inl rfl, rfl⟩
    · cases opened
      exact ⟨'X', .inr rfl, rfl⟩
    · cases opened
  · rintro ⟨x, rfl | rfl, rfl⟩
    · rfl
    · rfl

theorem ofPattern_eq_iff {n : Nat} {v : Int} :
    ofPattern n = v ↔ -2 ^ 31 ≤ v ∧ v < 2 ^ 31 ∧ v ≡ n [ZMOD 2 ^ 32] := by
  have low := @Int.le_bmod n patternCount (by decide)
  have high := @Int.bmod_lt n patternCount (by decide)
  have same := @Int.bmod_emod n patternCount
  unfold ofPattern Int.ModEq
  unfold patternCount at *
  omega

end IdlFrontEnd.Text
