import IdlFrontEnd.Proofs.DeclareOrder

/-!
# Lookups as in plain lists

The registry keeps its records in order and a second index for simple names. What it answers is what
a scan of the accepted records in the order of adding would answer: a record is accepted if none
before it in its table has its canonical name, and of the records that share a simple name the one
with the least canonical name is meant. As long as no two records of one table share a canonical
name, the order of adding does not matter.
-/
namespace IdlFrontEnd

/-- Where a record comes from, which decides the table it goes into. -/
inductive Origin where
  | defined | preprocessed
  deriving DecidableEq, Repr

structure Addition where
  origin : Origin
  record : TypeRecord
  deriving DecidableEq, Repr

namespace Registry

def table (g : Registry) : Origin → Table
  | .defined => g.defined
  | .preprocessed => g.preprocessed

def add? (g : Registry) (a : Addition) : Option Registry :=
  match a.origin with
  | .defined => g.addDefined? a.record
  | .preprocessed => g.addPreprocessed? a.record

/-- Makes one addition after the other and says of each whether the record was accepted. One that
was not leaves the registry as it is. -/
def addAll (g : Registry) : List Addition → Registry × List Bool
  | [] => (g, [])
  | a :: as =>
    let (last, answers) := ((g.add? a).getD g).addAll as
    (last, (g.add? a).isSome :: answers)

end Registry

/-! ## What a plain scan answers -/

namespace Addition

/-- The records for one table. -/
def recordsOf (o : Origin) (as : List Addition) : List TypeRecord :=
  (as.filter (·.origin = o)).map Addition.record

/-- The additions that were answered with true. -/
def accepted (as : List Addition) (answers : List Bool) : List Addition :=
  ((as.zip answers).filter Prod.snd).map Prod.fst

/-- None of the additions before goes into the same table under the same canonical name. -/
def IsFirst (before : List Addition) (a : Addition) : Prop :=
  ∀ b ∈ before, b.origin = a.origin → b.record.canonical ≠ a.record.canonical

instance (before : List Addition) (a : Addition) : Decidable (IsFirst before a) :=
  inferInstanceAs (Decidable (∀ b ∈ before, _))

theorem recordsOf_append (o : Origin) (as bs : List Addition) :
    recordsOf o (as ++ bs) = recordsOf o as ++ recordsOf o bs := by
  simp [recordsOf]

theorem isFirst_iff {before : List Addition} {a : Addition} :
    IsFirst before a ↔ ∀ r ∈ recordsOf a.origin before, r.canonical ≠ a.record.canonical := by
  constructor
  · intro fresh r member
    obtain ⟨b, inside, rfl⟩ := List.mem_map.1 member
    obtain ⟨there, own⟩ := List.mem_filter.1 inside
    exact fresh b there (of_decide_eq_true own)
  · intro fresh b there own
    exact fresh _ (List.mem_map_of_mem (List.mem_filter.2 ⟨there, decide_eq_true own⟩))

end Addition

namespace TypeRecord

/-- The records whose canonical name no record before them has. -/
def firsts : List TypeRecord → List TypeRecord
  | [] => []
  | r :: rs => r :: (firsts rs).filter (·.canonical ≠ r.canonical)

def sorted (rs : List TypeRecord) : List TypeRecord :=
  rs.mergeSort fun r s => r.canonical ≤ s.canonical

/-- Goes through the parsed types and then the preprocessed ones for a canonical name, and once more
for the least canonical name among those with the simple name. -/
def scan? (defined preprocessed : List TypeRecord) (name : String) : Option TypeRecord :=
  let named (r : TypeRecord) : Bool := r.name = name
  defined.find? (·.canonical = name) <|> preprocessed.find? (·.canonical = name)
    <|> (defined.filter named).minOn? canonical <|> (preprocessed.filter named).minOn? canonical

variable {rs ss : List TypeRecord} {r : TypeRecord} {name : String}

/-- No two of the records have one canonical name. -/
def Distinct (rs : List TypeRecord) : Prop :=
  rs.Pairwise fun r s => r.canonical ≠ s.canonical

theorem mem_firsts_canonical :
    (∃ x ∈ firsts rs, x.canonical = name) ↔ ∃ x ∈ rs, x.canonical = name := by
  induction rs with
  | nil => rfl
  | cons r rs ih =>
    simp only [firsts, List.mem_cons, exists_eq_or_imp, ← ih, List.mem_filter, decide_eq_true_eq]
    by_cases own : r.canonical = name
    · simp [own]
    · simp only [own, false_or]
      constructor
      · rintro ⟨x, ⟨member, -⟩, same⟩
        exact ⟨x, member, same⟩
      · rintro ⟨x, member, rfl⟩
        exact ⟨x, ⟨member, Ne.symm own⟩, rfl⟩

theorem firsts_concat :
    firsts (rs ++ [r]) =
      if ∃ x ∈ rs, x.canonical = r.canonical then firsts rs else firsts rs ++ [r] := by
  induction rs with
  | nil => simp [firsts]
  | cons x rs ih =>
    rw [List.cons_append, firsts, ih, firsts]
    by_cases later : ∃ y ∈ rs, y.canonical = r.canonical
    · rw [if_pos later, if_pos]
      obtain ⟨y, member, same⟩ := later
      exact ⟨y, List.mem_cons_of_mem x member, same⟩
    · rw [if_neg later, List.filter_append]
      by_cases own : x.canonical = r.canonical
      · rw [if_pos ⟨x, List.mem_cons_self, own⟩]
        simp [own]
      · have fresh : ¬ ∃ y ∈ x :: rs, y.canonical = r.canonical := by
          simpa [own] using later
        rw [if_neg fresh]
        simp [Ne.symm own]

theorem Distinct.eq {s : TypeRecord} (distinct : Distinct rs) (first : r ∈ rs) (second : s ∈ rs)
    (same : r.canonical = s.canonical) : r = s := by
  induction rs with
  | nil => cases first
  | cons x rs ih =>
    obtain ⟨own, others⟩ := List.pairwise_cons.1 distinct
    rcases List.mem_cons.1 first with rfl | inside
    · rcases List.mem_cons.1 second with rfl | later
      · rfl
      · exact absurd same (own s later)
    · rcases List.mem_cons.1 second with rfl | later
      · exact absurd same.symm (own r inside)
      · exact ih others inside later

theorem firsts_distinct (rs : List TypeRecord) : Distinct (firsts rs) := by
  induction rs with
  | nil => exact .nil
  | cons r rs ih =>
    refine List.pairwise_cons.2 ⟨?_, ih.filter _⟩
    intro x member same
    simpa [same] using (List.mem_filter.1 member).2

theorem firsts_of_distinct (distinct : Distinct rs) : firsts rs = rs := by
  induction rs with
  | nil => rfl
  | cons r rs ih =>
    obtain ⟨own, others⟩ := List.pairwise_cons.1 distinct
    rw [firsts, ih others, List.filter_eq_self.2]
    intro x member
    simpa using (own x member).symm

theorem Ascending.distinct (ascending : Ascending rs) : Distinct rs :=
  ascending.imp Std.ne_of_lt

theorem insertInto_perm (r : TypeRecord) (xs : List TypeRecord) :
    (insertInto r xs).Perm (r :: xs) := by
  induction xs with
  | nil => exact .refl _
  | cons x xs ih =>
    rw [insertInto]
    split
    · exact .refl _
    · exact (ih.cons x).trans (.swap r x xs)

/-- Ascending records are determined by which they are. -/
theorem Ascending.eq_of_perm (first : Ascending rs) (second : Ascending ss) (same : rs.Perm ss) :
    rs = ss :=
  same.eq_of_pairwise
    (fun _ _ _ _ less more => absurd (Std.lt_trans less more) (Std.lt_irrefl)) first second

/-- Sorting ends with the ascending order. -/
theorem Ascending.eq_sorted (ascending : Ascending rs) (same : rs.Perm ss) : rs = sorted ss := by
  have above : rs.Pairwise fun r s => r.canonical ≤ s.canonical := ascending.imp Std.le_of_lt
  have pairs : (sorted ss).Pairwise fun r s => decide (r.canonical ≤ s.canonical) = true :=
    List.pairwise_mergeSort (fun r s t => by simpa using Std.le_trans)
      (fun r s => by simpa using Std.le_total) ss
  refine (same.trans (List.mergeSort_perm ss _).symm).eq_of_pairwise ?_ above
    (pairs.imp of_decide_eq_true)
  intro r s first second less more
  have member : s ∈ rs := same.mem_iff.2 ((List.mergeSort_perm ss _).mem_iff.1 second)
  exact ascending.distinct.eq first member (Std.le_antisymm less more)

/-- The least of some records with different canonical names. -/
theorem minOn?_eq_some (member : r ∈ rs) (distinct : Distinct rs)
    (least : ∀ x ∈ rs, r.canonical ≤ x.canonical) : rs.minOn? canonical = some r := by
  obtain ⟨m, found⟩ := Option.isSome_iff_exists.1 (List.isSome_minOn?_of_mem (f := canonical) member)
  have inside : m ∈ rs := List.minOn?_mem found
  have below : m.canonical ≤ r.canonical := by
    simpa only [found, Option.get_some] using
      List.apply_get_minOn?_le_of_mem (f := canonical) member
  rw [found, distinct.eq inside member (Std.le_antisymm below (least m inside))]

end TypeRecord

namespace Table

open TypeRecord

variable {t next : Table} {rs : List TypeRecord} {r : TypeRecord} {name : String}

/-- What a table holds after records were added to it one by one. -/
structure Holds (t : Table) (rs : List TypeRecord) : Prop where
  perm : t.records.Perm (firsts rs)

theorem empty_holds : empty.Holds [] := ⟨.refl _⟩

theorem add?_isSome_iff : (t.add? r).isSome = true ↔ ∀ x ∈ t.records, x.canonical ≠ r.canonical := by
  unfold add?
  split
  next fresh => simpa using fresh
  next taken => simpa using taken

theorem Holds.any_canonical (holds : t.Holds rs) (name : String) :
    (∃ x ∈ t.records, x.canonical = name) ↔ ∃ x ∈ rs, x.canonical = name := by
  simp only [holds.perm.mem_iff]
  exact mem_firsts_canonical

theorem Holds.accepts_iff (holds : t.Holds rs) :
    (t.add? r).isSome = true ↔ ∀ x ∈ rs, x.canonical ≠ r.canonical := by
  rw [add?_isSome_iff]
  simpa using not_congr (holds.any_canonical r.canonical)

theorem Holds.add (holds : t.Holds rs) (r : TypeRecord) :
    ((t.add? r).getD t).Holds (rs ++ [r]) := by
  have known := holds.any_canonical r.canonical
  constructor
  rw [firsts_concat]
  cases added : t.add? r with
  | some next =>
    obtain ⟨fresh, records⟩ := add?_eq_some_iff.1 added
    have new : ¬ ∃ x ∈ rs, x.canonical = r.canonical := by
      simpa [← known] using fresh
    rw [if_neg new, Option.getD_some, records]
    exact (insertInto_perm r _).trans ((holds.perm.cons r).trans (List.perm_append_singleton r _).symm)
  | none =>
    have taken : ∃ x ∈ rs, x.canonical = r.canonical := by
      rw [← known]
      have refused : ¬ (t.add? r).isSome = true := by simp [added]
      simpa [add?_isSome_iff] using refused
    rw [if_pos taken, Option.getD_none]
    exact holds.perm

theorem Holds.records_eq (holds : t.Holds rs) : t.records = sorted (firsts rs) :=
  t.ascending.eq_sorted holds.perm

theorem Holds.mem_iff (holds : t.Holds rs) : r ∈ t.records ↔ r ∈ firsts rs :=
  holds.perm.mem_iff

theorem Holds.find?_eq (holds : t.Holds rs) (name : String) :
    t.find? name = (firsts rs).find? (·.canonical = name) := by
  cases found : (firsts rs).find? (·.canonical = name) with
  | some r =>
    have same : r.canonical = name := by simpa using List.find?_some found
    exact find?_eq_some_iff.2 ⟨holds.mem_iff.2 (List.mem_of_find?_eq_some found), same⟩
  | none =>
    have absent := List.find?_eq_none.1 found
    refine List.find?_eq_none.2 fun r member => absent r (holds.mem_iff.1 member)

theorem Holds.alias?_eq (holds : t.Holds rs) (name : String) :
    t.alias? name = ((firsts rs).filter (·.name = name)).minOn? canonical := by
  rw [alias?_eq_find?]
  cases found : t.records.find? (·.name = name) with
  | none =>
    have absent := List.find?_eq_none.1 found
    have none : (firsts rs).filter (·.name = name) = [] :=
      List.filter_eq_nil_iff.2 fun r member => absent r (holds.mem_iff.2 member)
    rw [none, List.minOn?_nil]
  | some r =>
    -- the first record of the name comes before all others of the name
    obtain ⟨own, before, after, split, without⟩ := List.find?_eq_some_iff_append.1 found
    refine (minOn?_eq_some ?_ ((firsts_distinct rs).filter _) ?_).symm
    · exact List.mem_filter.2 ⟨holds.mem_iff.1 (List.mem_of_find?_eq_some found), own⟩
    · intro x member
      obtain ⟨inside, named⟩ := List.mem_filter.1 member
      have place := holds.mem_iff.2 inside
      have ascending := t.ascending
      rw [split] at place ascending
      rcases List.mem_append.1 place with early | late
      · exact absurd named (by simpa using without x early)
      · rcases List.mem_cons.1 late with rfl | late
        · exact Std.le_refl _
        · have behind := (List.pairwise_append.1 ascending).2.1
          exact Std.le_of_lt ((List.pairwise_cons.1 behind).1 x late)

/-- Tables that hold the same records are the same. -/
theorem Holds.eq_of_perm {u : Table} {ss : List TypeRecord} (first : t.Holds rs)
    (second : u.Holds ss) (same : (firsts rs).Perm (firsts ss)) : t = u :=
  ext_records (t.ascending.eq_of_perm u.ascending (first.perm.trans (same.trans second.perm.symm)))

end Table

/-! ## All additions -/

namespace Registry

open TypeRecord Addition

variable {g : Registry} {before as : List Addition}

/-- What both tables hold after some additions. -/
def Holds (g : Registry) (as : List Addition) : Prop := ∀ o, (g.table o).Holds (recordsOf o as)

theorem empty_holds : empty.Holds [] := by
  intro o
  cases o <;> exact Table.empty_holds

theorem add?_isSome (g : Registry) (a : Addition) :
    (g.add? a).isSome = ((g.table a.origin).add? a.record).isSome := by
  obtain ⟨o, r⟩ := a
  cases o <;> simp [add?, table, addDefined?, addPreprocessed?]

theorem table_add? (g : Registry) (a : Addition) (o : Origin) :
    ((g.add? a).getD g).table o =
      if a.origin = o then ((g.table o).add? a.record).getD (g.table o) else g.table o := by
  obtain ⟨origin, r⟩ := a
  cases origin <;> cases o
  · cases h : g.defined.add? r <;> simp [add?, table, addDefined?, h]
  · cases h : g.defined.add? r <;> simp [add?, table, addDefined?, h]
  · cases h : g.preprocessed.add? r <;> simp [add?, table, addPreprocessed?, h]
  · cases h : g.preprocessed.add? r <;> simp [add?, table, addPreprocessed?, h]

theorem Holds.add (holds : g.Holds before) (a : Addition) :
    ((g.add? a).getD g).Holds (before ++ [a]) := by
  intro o
  rw [table_add?]
  by_cases own : a.origin = o
  · have records : recordsOf o (before ++ [a]) = recordsOf o before ++ [a.record] := by
      simp [recordsOf, own]
    rw [if_pos own, records]
    exact (holds o).add a.record
  · have records : recordsOf o (before ++ [a]) = recordsOf o before := by
      simp [recordsOf, own]
    rw [if_neg own, records]
    exact holds o

theorem Holds.addAll (holds : g.Holds before) (as : List Addition) :
    (g.addAll as).1.Holds (before ++ as) := by
  induction as generalizing g before with
  | nil => simpa [Registry.addAll] using holds
  | cons a as ih => simpa [Registry.addAll] using ih (holds.add a)

theorem Holds.accepts_iff (holds : g.Holds before) {a : Addition} :
    (g.add? a).isSome = true ↔ IsFirst before a := by
  rw [add?_isSome, (holds a.origin).accepts_iff, isFirst_iff]

/-- The records that are accepted are the first ones of their canonical names. -/
theorem Holds.accepted (holds : g.Holds before) (o : Origin) :
    firsts (recordsOf o (before ++ as)) =
      firsts (recordsOf o before) ++ recordsOf o (Addition.accepted as (g.addAll as).2) := by
  induction as generalizing g before with
  | nil => simp [Addition.accepted, recordsOf]
  | cons a as ih =>
    have later := ih (holds.add a)
    have first := holds.accepts_iff (a := a)
    rw [List.append_assoc, List.singleton_append] at later
    rw [later, recordsOf_append]
    by_cases own : a.origin = o
    · obtain ⟨origin, r⟩ := a
      obtain rfl : origin = o := own
      have single : recordsOf origin [⟨origin, r⟩] = [r] := by simp [recordsOf]
      rw [single, firsts_concat]
      rw [isFirst_iff] at first
      by_cases new : (g.add? ⟨origin, r⟩).isSome = true
      · have fresh := first.1 new
        rw [if_neg (by simpa using fresh)]
        simp [Registry.addAll, Addition.accepted, recordsOf, new]
      · have taken : ∃ x ∈ recordsOf origin before, x.canonical = r.canonical := by
          simpa using mt first.2 new
        rw [if_pos taken]
        simp [Registry.addAll, Addition.accepted, new]
    · have none : recordsOf o [a] = [] := by simp [recordsOf, own]
      rw [none, List.append_nil]
      cases new : (g.add? a).isSome <;>
        simp [Registry.addAll, Addition.accepted, recordsOf, own, new]

theorem addAll_append (g : Registry) (as bs : List Addition) :
    (g.addAll (as ++ bs)).2 = (g.addAll as).2 ++ ((g.addAll as).1.addAll bs).2 := by
  induction as generalizing g with
  | nil => rfl
  | cons a as ih => simp [addAll, ih]

theorem length_addAll (g : Registry) (as : List Addition) : (g.addAll as).2.length = as.length := by
  induction as generalizing g with
  | nil => rfl
  | cons a as ih => simp [addAll, ih]

theorem Holds.lookup?_eq (holds : g.Holds as) (name : String) :
    g.lookup? name =
      scan? (firsts (recordsOf .defined as)) (firsts (recordsOf .preprocessed as)) name := by
  have defined := holds .defined
  have preprocessed := holds .preprocessed
  simp only [table] at defined preprocessed
  unfold lookup? scan?
  rw [defined.find?_eq, preprocessed.find?_eq, defined.alias?_eq, preprocessed.alias?_eq]

/-- As long as no addition is refused, the order of adding leaves no trace. -/
theorem Holds.eq_of_perm {h : Registry} {others : List Addition} (first : g.Holds as)
    (second : h.Holds others) (same : as.Perm others)
    (distinct : ∀ o, Distinct (recordsOf o as)) : g = h := by
  have table (o : Origin) : g.table o = h.table o := by
    have moved : (recordsOf o as).Perm (recordsOf o others) := (same.filter _).map _
    have apart : Distinct (recordsOf o others) :=
      (moved.pairwise_iff Ne.symm).1 (distinct o)
    refine (first o).eq_of_perm (second o) ?_
    rwa [firsts_of_distinct (distinct o), firsts_of_distinct apart]
  obtain ⟨defined, preprocessed⟩ := g
  obtain ⟨defined', preprocessed'⟩ := h
  exact congr (congrArg Registry.mk (table .defined)) (table .preprocessed)

/-- Whatever is added to an empty registry, each record is accepted exactly if it is the first of its
canonical name in its table, every name is looked up as in a plain scan of the accepted records, and
these are listed in ascending order. If no two records of one table have one canonical name, the
order of adding changes nothing about that. -/
theorem answers_like_scan (additions : List Addition) :
    let run := empty.addAll additions
    let defined := firsts (recordsOf .defined additions)
    let preprocessed := firsts (recordsOf .preprocessed additions)
    run.2.length = additions.length ∧
      (∀ before a after, additions = before ++ a :: after →
        run.2[before.length]? = some (decide (IsFirst before a))) ∧
      recordsOf .defined (accepted additions run.2) = defined ∧
      recordsOf .preprocessed (accepted additions run.2) = preprocessed ∧
      (∀ name, run.1.lookup? name = scan? defined preprocessed name) ∧
      run.1.records = sorted defined ++ sorted preprocessed ∧
      ((∀ o, Distinct (recordsOf o additions)) → ∀ others, additions.Perm others →
        (∀ name, (empty.addAll others).1.lookup? name = run.1.lookup? name) ∧
          (empty.addAll others).1.records = run.1.records) := by
  intro run defined preprocessed
  have holds : run.1.Holds additions := empty_holds.addAll additions
  refine ⟨length_addAll _ _, ?_, ?_, ?_, holds.lookup?_eq, ?_, ?_⟩
  · rintro before a after rfl
    have mid : (empty.addAll before).1.Holds before := empty_holds.addAll before
    have answer : run.2 = (empty.addAll before).2 ++
        (((empty.addAll before).1.add? a).isSome ::
          (((((empty.addAll before).1.add? a).getD (empty.addAll before).1)).addAll after).2) :=
      addAll_append _ _ _
    rw [answer, List.getElem?_append_right (Nat.le_of_eq (length_addAll _ _)), length_addAll,
      Nat.sub_self, List.getElem?_cons_zero]
    exact congrArg some (Bool.eq_iff_iff.2 (mid.accepts_iff.trans decide_eq_true_iff.symm))
  · exact (empty_holds.accepted .defined).symm
  · exact (empty_holds.accepted .preprocessed).symm
  · exact congr (congrArg _ (holds .defined).records_eq) (holds .preprocessed).records_eq
  · intro distinct others same
    have equal : run.1 = (empty.addAll others).1 :=
      holds.eq_of_perm (empty_holds.addAll others) same distinct
    rw [equal]
    exact ⟨fun _ => rfl, rfl⟩

/-- Types that share a simple name, one of them listed only, and one nested in another. -/
def sharedNames : List Addition :=
  [⟨.preprocessed, ⟨.parcelable, "Foo", ["old"]⟩⟩, ⟨.defined, ⟨.interface, "Foo", ["y"]⟩⟩,
   ⟨.defined, ⟨.structuredParcelable, "Foo.Bar", ["x"]⟩⟩, ⟨.defined, ⟨.parcelable, "Foo", ["x"]⟩⟩]

theorem sharedNames_in_any_order :
    (∀ o, Distinct (recordsOf o sharedNames)) ∧
      ((empty.addAll sharedNames).1.lookup? "Foo").map canonical = some "x.Foo" ∧
      (empty.addAll sharedNames).1.records.map canonical =
        ["x.Foo", "x.Foo.Bar", "y.Foo", "old.Foo"] ∧
      (∀ name, (empty.addAll sharedNames.reverse).1.lookup? name =
        (empty.addAll sharedNames).1.lookup? name) ∧
      (empty.addAll sharedNames.reverse).1.records = (empty.addAll sharedNames).1.records := by
  have distinct : ∀ o, Distinct (recordsOf o sharedNames) := by
    intro o
    cases o <;> unfold Distinct <;> decide +kernel
  obtain ⟨-, -, -, -, -, -, anyOrder⟩ := answers_like_scan sharedNames
  obtain ⟨lookups, records⟩ := anyOrder distinct sharedNames.reverse sharedNames.reverse_perm.symm
  exact ⟨distinct, by decide +kernel, by decide +kernel, lookups, records⟩

end Registry

end IdlFrontEnd
