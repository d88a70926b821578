import IdlFrontEnd.Location
import Mathlib.Data.List.Induction
import Mathlib.Data.List.Pairwise
import Mathlib.Order.Defs.PartialOrder

/-!
# How locations lie

The point behind a text has the line and the column of the text up to there, each as a number of 32
bits. They are the true numbers as long as these are small enough, and this is so at every character
exactly if counting never starts over.

Points are in order of lines, and on one line in order of columns. Reading on never leads back
unless counting starts over. One location lies within another if no point of it is outside, and
before another if it is over by the time that one starts.
-/
namespace IdlFrontEnd

/-! ## Lines and columns -/

/-- The line that is reached behind these characters. -/
def lineAfter (before : List Char) : Nat := 1 + before.count '\n'

/-- The column that is reached behind these characters, counted from the last line feed on. -/
def columnAfter (before : List Char) : Nat := 1 + (before.reverse.takeWhile (· ≠ '\n')).length

@[simp] theorem lineAfter_snoc (cs : List Char) (c : Char) :
    lineAfter (cs ++ [c]) = if c = '\n' then lineAfter cs + 1 else lineAfter cs := by
  split
  next newline => simp [lineAfter, newline, Nat.add_assoc]
  next other => simp [lineAfter, other]

@[simp] theorem columnAfter_snoc (cs : List Char) (c : Char) :
    columnAfter (cs ++ [c]) = if c = '\n' then 1 else columnAfter cs + 1 := by
  split
  next newline => simp [columnAfter, newline]
  next other => simp [columnAfter, other, Nat.add_assoc]

/-- The line and the column behind these characters are numbers of 32 bits. -/
structure Fits (before : List Char) : Prop where
  line : lineAfter before < UInt32.size
  column : columnAfter before < UInt32.size

/-- Only a text with as many characters as there are numbers can have a line or column that is too
large. -/
theorem Fits.of_length {before : List Char} (short : before.length + 1 < UInt32.size) :
    Fits before := by
  have lines : before.count '\n' ≤ before.length := List.count_le_length
  have columns : (before.reverse.takeWhile (· ≠ '\n')).length ≤ before.length := by
    simpa using (List.takeWhile_prefix (· ≠ '\n') (l := before.reverse)).length_le
  constructor
  · rw [lineAfter]
    omega
  · rw [columnAfter]
    omega

namespace Point

/-- The point behind a text that starts at the first point. -/
def behind (before : List Char) : Point := ⟨.ofNat (lineAfter before), .ofNat (columnAfter before)⟩

/-- The point has the true line and column. -/
structure Exact (p : Point) (before : List Char) : Prop where
  line : p.line.toNat = lineAfter before
  column : p.column.toNat = columnAfter before

theorem behind_exact {before : List Char} : (behind before).Exact before ↔ Fits before := by
  simp only [behind]
  constructor
  · intro exact
    have line := exact.line
    have column := exact.column
    exact ⟨line ▸ UInt32.toNat_lt_size _, column ▸ UInt32.toNat_lt_size _⟩
  · intro fits
    exact ⟨UInt32.toNat_ofNat_of_lt' fits.line, UInt32.toNat_ofNat_of_lt' fits.column⟩

theorem behind_snoc (cs : List Char) (c : Char) : behind (cs ++ [c]) = (behind cs).after c := by
  rw [behind, lineAfter_snoc, columnAfter_snoc, after, behind]
  split
  · rw [UInt32.ofNat_add]
    rfl
  · rw [UInt32.ofNat_add]
    rfl

@[simp] theorem afterAll_append (p : Point) (cs ds : List Char) :
    p.afterAll (cs ++ ds) = (p.afterAll cs).afterAll ds :=
  List.foldl_append

theorem afterAll_start (cs : List Char) : afterAll ⟨1, 1⟩ cs = behind cs := by
  induction cs using List.reverseRecOn with
  | nil => rfl
  | append_singleton cs c ih =>
    rw [afterAll_append, ih, behind_snoc]
    rfl

theorem startsOver_append (p : Point) (cs ds : List Char) :
    p.startsOver (cs ++ ds) = (p.startsOver cs || (p.afterAll cs).startsOver ds) := by
  induction cs generalizing p with
  | nil => rfl
  | cons c cs ih =>
    rw [List.cons_append, startsOver, startsOver, ih, Bool.or_assoc]
    rfl

/-- Only behind the largest number counting starts over. -/
theorem succ_eq_zero_iff {n : UInt32} : n + 1 = 0 ↔ n.toNat + 1 = UInt32.size := by
  have small := n.toNat_lt_size
  rw [← UInt32.toNat_inj, UInt32.toNat_add]
  simp only [UInt32.toNat_one, UInt32.toNat_zero, UInt32.size] at small ⊢
  omega

theorem toNat_succ {n : UInt32} (counted : n + 1 ≠ 0) : (n + 1).toNat = n.toNat + 1 := by
  have small := n.toNat_lt_size
  have other := mt succ_eq_zero_iff.2 counted
  rw [UInt32.toNat_add]
  simp only [UInt32.toNat_one, UInt32.size] at small other ⊢
  omega

/-- One character on everything is as it should be unless counting starts over there. -/
theorem isLast_behind {cs : List Char} (fits : Fits cs) (c : Char) :
    (behind cs).isLast c = false ↔ Fits (cs ++ [c]) := by
  have exact := behind_exact.2 fits
  have line := fits.line
  have column := fits.column
  have some : 1 < UInt32.size := by decide
  rw [isLast]
  split
  next newline =>
    rw [decide_eq_false_iff_not, succ_eq_zero_iff, exact.line]
    refine ⟨fun more => ⟨?_, ?_⟩, fun next => ?_⟩
    · rw [lineAfter_snoc, if_pos newline]
      omega
    · rwa [columnAfter_snoc, if_pos newline]
    · have further := next.line
      rw [lineAfter_snoc, if_pos newline] at further
      omega
  next other =>
    rw [decide_eq_false_iff_not, succ_eq_zero_iff, exact.column]
    refine ⟨fun more => ⟨?_, ?_⟩, fun next => ?_⟩
    · rwa [lineAfter_snoc, if_neg other]
    · rw [columnAfter_snoc, if_neg other]
      omega
    · have further := next.column
      rw [columnAfter_snoc, if_neg other] at further
      omega

/-- Counting never starts over exactly if every line and column up to there is a number of 32
bits. -/
theorem startsOver_start (cs : List Char) :
    startsOver ⟨1, 1⟩ cs = false ↔ ∀ n ≤ cs.length, Fits (cs.take n) := by
  induction cs using List.reverseRecOn with
  | nil =>
    have empty : Fits [] := .of_length (by decide)
    simp [startsOver, empty]
  | append_singleton cs c ih =>
    have before {n : Nat} (inside : n ≤ cs.length) : (cs ++ [c]).take n = cs.take n :=
      List.take_append_of_le_length inside
    have single : (behind cs).startsOver [c] = (behind cs).isLast c := Bool.or_false _
    rw [startsOver_append, afterAll_start, single, Bool.or_eq_false_iff, ih, List.length_append,
      List.length_singleton]
    constructor
    · rintro ⟨fits, counted⟩ n inside
      rcases Nat.lt_or_eq_of_le inside with inside | rfl
      · rw [before (Nat.le_of_lt_succ inside)]
        exact fits n (Nat.le_of_lt_succ inside)
      · have here := fits cs.length (Nat.le_refl _)
        rw [List.take_length] at here
        rw [List.take_of_length_le (by simp)]
        exact (isLast_behind here c).1 counted
    · intro fits
      have earlier : ∀ n ≤ cs.length, Fits (cs.take n) := fun n inside =>
        before inside ▸ fits n (Nat.le_succ_of_le inside)
      have here := earlier cs.length (Nat.le_refl _)
      have last := fits (cs.length + 1) (Nat.le_refl _)
      rw [List.take_length] at here
      rw [List.take_of_length_le (by simp)] at last
      exact ⟨earlier, (isLast_behind here c).2 last⟩

/-! ## The order of points -/

instance : LE Point where
  le p q := p.line < q.line ∨ p.line = q.line ∧ p.column ≤ q.column

theorem le_iff {p q : Point} :
    p ≤ q ↔ p.line < q.line ∨ p.line = q.line ∧ p.column ≤ q.column := Iff.rfl

instance (p q : Point) : Decidable (p ≤ q) := decidable_of_iff _ le_iff.symm

instance : Preorder Point where
  le_refl p := .inr ⟨rfl, UInt32.le_refl _⟩
  le_trans p q r first second := by
    rw [le_iff] at first second ⊢
    simp only [UInt32.lt_iff_toNat_lt, UInt32.le_iff_toNat_le, ← UInt32.toNat_inj] at *
    omega

theorem le_after {p : Point} {c : Char} (counted : p.isLast c = false) : p ≤ p.after c := by
  rw [isLast] at counted
  rw [le_iff, after]
  split
  next newline =>
    rw [if_pos newline, decide_eq_false_iff_not] at counted
    refine .inl ?_
    rw [UInt32.lt_iff_toNat_lt, toNat_succ counted]
    exact Nat.lt_succ_self _
  next other =>
    rw [if_neg other, decide_eq_false_iff_not] at counted
    refine .inr ⟨rfl, ?_⟩
    rw [UInt32.le_iff_toNat_le, toNat_succ counted]
    exact Nat.le_succ _

theorem le_afterAll {p : Point} {cs : List Char} (counted : p.startsOver cs = false) :
    p ≤ p.afterAll cs := by
  induction cs generalizing p with
  | nil => exact le_refl p
  | cons c cs ih =>
    obtain ⟨here, further⟩ := Bool.or_eq_false_iff.1 counted
    exact le_trans (le_after here) (ih further)

end Point

namespace Location

/-- In the same file, and no point of it lies outside. -/
structure Within (inner outer : Location) : Prop where
  file : inner.file = outer.file
  start : outer.start ≤ inner.start
  stop : inner.stop ≤ outer.stop

/-- In the same file, and over by the time the other one starts. -/
structure Before (first second : Location) : Prop where
  file : first.file = second.file
  apart : first.stop ≤ second.start

/-- They share no point that is inside both: one is over before the other starts. -/
def Apart (a b : Location) : Prop := a.Before b ∨ b.Before a

/-- All of them lie within the first, one behind the other. -/
structure Encloses (outer : Location) (inner : List Location) : Prop where
  within : ∀ l ∈ inner, l.Within outer
  ordered : inner.Pairwise Before

theorem Encloses.sublist {outer : Location} {inner fewer : List Location}
    (encloses : outer.Encloses inner) (part : fewer.Sublist inner) : outer.Encloses fewer :=
  ⟨fun l member => encloses.within l (part.subset member), encloses.ordered.sublist part⟩

end Location

end IdlFrontEnd
