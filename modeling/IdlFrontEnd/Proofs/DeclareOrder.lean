import IdlFrontEnd.Proofs.Registry

/-!
# The order of declaring

A table is kept in ascending order, so two records with different canonical names can be added in
either order. Declarations that go into a registry without a report therefore do so in every order,
and the registry is the same afterwards, aliases included.
-/
namespace IdlFrontEnd

namespace TypeRecord

theorem insertInto_comm {r s : TypeRecord} (different : r.canonical ≠ s.canonical)
    (xs : List TypeRecord) : insertInto r (insertInto s xs) = insertInto s (insertInto r xs) := by
  have apart : r.canonical < s.canonical ∧ ¬ s.canonical < r.canonical ∨
      s.canonical < r.canonical ∧ ¬ r.canonical < s.canonical := by
    by_cases less : r.canonical < s.canonical
    · exact .inl ⟨less, Std.not_gt_of_lt less⟩
    · exact .inr ⟨Std.lt_of_le_of_ne (String.not_lt.1 less) (Ne.symm different), less⟩
  induction xs with
  | nil => rcases apart with ⟨less, notMore⟩ | ⟨less, notMore⟩ <;> simp [insertInto, less, notMore]
  | cons x xs ih =>
    by_cases rFirst : r.canonical < x.canonical <;> by_cases sFirst : s.canonical < x.canonical
    · rcases apart with ⟨less, notMore⟩ | ⟨less, notMore⟩ <;>
        simp [insertInto, less, notMore, rFirst, sFirst]
    · have notFirst : ¬ s.canonical < r.canonical := fun less => sFirst (Std.lt_trans less rFirst)
      simp [insertInto, rFirst, sFirst, notFirst]
    · have notFirst : ¬ r.canonical < s.canonical := fun less => rFirst (Std.lt_trans less sFirst)
      simp [insertInto, rFirst, sFirst, notFirst]
    · simp [insertInto, rFirst, sFirst, ih]

end TypeRecord

namespace Table

/-- Two records that go into a table one after the other also do so the other way round. -/
theorem add?_comm {t mid last : Table} {r s : TypeRecord} (first : t.add? r = some mid)
    (second : mid.add? s = some last) :
    ∃ other, t.add? s = some other ∧ other.add? r = some last := by
  obtain ⟨rFresh, midIs⟩ := add?_eq_some_iff.1 first
  obtain ⟨sFresh, lastIs⟩ := add?_eq_some_iff.1 second
  have free : ∀ x, x = r ∨ x ∈ t.records → x.canonical ≠ s.canonical := by
    intro x member
    exact sFresh x (by rwa [midIs, TypeRecord.mem_insertInto])
  have different : r.canonical ≠ s.canonical := free r (.inl rfl)
  have sFree : ∀ x ∈ t.records, x.canonical ≠ s.canonical := fun x member => free x (.inr member)
  refine ⟨⟨s.insertInto t.records, t.aliasesWith s,
    TypeRecord.ascending_insertInto t.ascending sFree, aliasesWith_eq sFree⟩, ?_, ?_⟩
  · exact add?_eq_some_iff.2 ⟨sFree, rfl⟩
  · rw [add?_eq_some_iff]
    constructor
    · intro x member
      rcases TypeRecord.mem_insertInto.1 member with rfl | member
      · exact Ne.symm different
      · exact rFresh x member
    · rw [lastIs, midIs, TypeRecord.insertInto_comm different]

end Table

namespace Registry

theorem addDefined?_comm {g mid last : Registry} {r s : TypeRecord}
    (first : g.addDefined? r = some mid) (second : mid.addDefined? s = some last) :
    ∃ other, g.addDefined? s = some other ∧ other.addDefined? r = some last := by
  obtain ⟨table, added, rfl⟩ := Option.map_eq_some_iff.1 first
  obtain ⟨more, addedNext, rfl⟩ := Option.map_eq_some_iff.1 second
  obtain ⟨other, sFirst, rSecond⟩ := Table.add?_comm added addedNext
  refine ⟨{ g with defined := other }, ?_, ?_⟩
  · simp [addDefined?, sFirst]
  · simp [addDefined?, rSecond]

/-- A silent declaration adds its first record and goes on in silence. -/
theorem declare_cons_silent {g last : Registry} {d : Declaration} {ds : List Declaration} :
    g.declare (d :: ds) = (last, []) ↔
      ∃ next, g.addDefined? (.ofDeclaration d) = some next ∧ next.declare ds = (last, []) := by
  rw [declare]
  cases g.addDefined? (.ofDeclaration d) with
  | some next => simp
  | none => simp

/-- All that is declared of a type is its record. -/
theorem declare_congr {ds es : List Declaration}
    (same : ds.map TypeRecord.ofDeclaration = es.map TypeRecord.ofDeclaration) {g last : Registry}
    (silent : g.declare ds = (last, [])) : g.declare es = (last, []) := by
  induction ds generalizing g es with
  | nil =>
    obtain rfl := List.map_eq_nil_iff.1 same.symm
    exact silent
  | cons d ds ih =>
    obtain ⟨e, es, rfl, own, others⟩ := List.map_eq_cons_iff.1 same.symm
    obtain ⟨next, added, rest⟩ := declare_cons_silent.1 silent
    rw [← own] at added
    exact declare_cons_silent.2 ⟨next, added, ih others.symm rest⟩

theorem declare_append_silent {g last : Registry} {ds es : List Declaration} :
    g.declare (ds ++ es) = (last, []) ↔
      ∃ mid, g.declare ds = (mid, []) ∧ mid.declare es = (last, []) := by
  induction ds generalizing g with
  | nil => simp [declare]
  | cons d ds ih =>
    rw [List.cons_append]
    simp only [declare_cons_silent, ih]
    constructor
    · rintro ⟨next, added, mid, silent, rest⟩
      exact ⟨mid, ⟨next, added, silent⟩, rest⟩
    · rintro ⟨mid, ⟨next, added, silent⟩, rest⟩
      exact ⟨next, added, mid, silent, rest⟩

/-- What is declared in silence in one order is declared in silence in every order, and the
registry does not remember the order. -/
theorem declare_perm {ds es : List Declaration} (same : ds.Perm es) {g last : Registry}
    (silent : g.declare ds = (last, [])) : g.declare es = (last, []) := by
  induction same generalizing g with
  | nil => exact silent
  | cons d same ih =>
    obtain ⟨next, added, rest⟩ := declare_cons_silent.1 silent
    exact declare_cons_silent.2 ⟨next, added, ih rest⟩
  | swap d e ds =>
    obtain ⟨next, added, rest⟩ := declare_cons_silent.1 silent
    obtain ⟨mid, addedNext, rest⟩ := declare_cons_silent.1 rest
    obtain ⟨other, dFirst, eSecond⟩ := addDefined?_comm added addedNext
    exact declare_cons_silent.2 ⟨other, dFirst, declare_cons_silent.2 ⟨mid, eSecond, rest⟩⟩
  | trans same others ih ihOthers => exact ihOthers (ih silent)

end Registry

end IdlFrontEnd
