import IdlFrontEnd.Check.MethodIds
import IdlFrontEnd.Proofs.Diagnostic
import Mathlib.Algebra.Group.Int.Defs
import Mathlib.Algebra.Group.Nat.Defs
import Mathlib.Data.List.Nodup

/-!
# Numbers of methods

Methods are well numbered if no number is written, or if each method has a written one and these are
different and in range. One pass looks for repeated numbers, for numbers out of range and for a
mixture of the two ways, and ends at the first method that cannot follow those before it; what it
answers is nevertheless a property of the whole list. Methods that are well numbered keep what is
written, or are numbered from zero on, and such numbers are never taken for written ones.
-/
namespace IdlFrontEnd

theorem MethodId.written?_eq_some_iff {id : MethodId} {n : Int} :
    id.written? = some n ↔ id = .written n := by
  cases id <;> simp [written?]

namespace Method

/-! ## Well numbered methods -/

def Unnumbered (methods : List Method) : Prop := ∀ m ∈ methods, m.id.written? = none

/-- Each method has a number in the file. These are in range and no two are the same. -/
structure NumberedByHand (methods : List Method) : Prop where
  inRange : ∀ m ∈ methods, ∃ n, m.id = .written n ∧ minMethodId ≤ n ∧ n ≤ maxMethodId
  distinct : (methods.map Method.id).Nodup

def WellNumbered (methods : List Method) : Prop := Unnumbered methods ∨ NumberedByHand methods

theorem NumberedByHand.nil : NumberedByHand [] :=
  ⟨fun _ member => absurd member List.not_mem_nil, List.nodup_nil⟩

theorem NumberedByHand.written {methods : List Method} {m : Method}
    (hand : NumberedByHand methods) (member : m ∈ methods) : m.id.written? ≠ none := by
  obtain ⟨n, own, -⟩ := hand.inRange m member
  rw [own]
  exact Option.some_ne_none n

theorem Unnumbered.snoc {before : List Method} {m : Method} (earlier : Unnumbered before)
    (own : m.id.written? = none) : Unnumbered (before ++ [m]) := by
  intro k member
  rcases List.mem_append.1 member with member | member
  · exact earlier k member
  · rwa [List.mem_singleton.1 member]

theorem NumberedByHand.snoc {before : List Method} {m : Method} {n : Int}
    (earlier : NumberedByHand before) (own : m.id = .written n)
    (fresh : m.id ∉ before.map Method.id) (range : minMethodId ≤ n ∧ n ≤ maxMethodId) :
    NumberedByHand (before ++ [m]) := by
  constructor
  case inRange =>
    intro k member
    rcases List.mem_append.1 member with member | member
    · exact earlier.inRange k member
    · rw [List.mem_singleton.1 member]
      exact ⟨n, own, range⟩
  case distinct =>
    rw [List.map_append, List.map_singleton, ← List.concat_eq_append]
    exact earlier.distinct.concat fresh

/-! ## The first mistake -/

/-- The method cannot follow those before it, and this is the report. -/
inductive Mistake (file : String) (before : List Method) (m : Method) : Diagnostic → Prop
  | repeated {n : Int} (own : m.id = .written n) (earlier : m.id ∈ before.map Method.id) :
      Mistake file before m (.atPlace m.location (.repeatedMethodId n m.name))
  | outOfRange {n : Int} (own : m.id = .written n) (fresh : m.id ∉ before.map Method.id)
      (outside : n < minMethodId ∨ maxMethodId < n) :
      Mistake file before m (.atPlace m.location (.methodIdOutOfRange n m.name))
  | numbered {n : Int} {k : Method} (own : m.id = .written n)
      (range : minMethodId ≤ n ∧ n ≤ maxMethodId) (earlier : k ∈ before)
      (without : k.id.written? = none) : Mistake file before m (.atFile file .someMethodIdsMissing)
  | unnumbered {k : Method} (own : m.id.written? = none) (earlier : k ∈ before)
      (given : k.id.written? ≠ none) : Mistake file before m (.atFile file .someMethodIdsMissing)

theorem Mistake.isError {file : String} {before : List Method} {m : Method} {note : Diagnostic}
    (mistake : Mistake file before m note) : note.severity = .error := by
  cases mistake <;> rfl

/-- Whatever follows, there is no way to make up for a mistake. -/
theorem Mistake.not_wellNumbered {file : String} {before : List Method} {m : Method}
    {note : Diagnostic} (mistake : Mistake file before m note) (later : List Method) :
    ¬ WellNumbered (before ++ m :: later) := by
  have here : m ∈ before ++ m :: later := List.mem_append_right _ List.mem_cons_self
  have there {k : Method} (earlier : k ∈ before) : k ∈ before ++ m :: later :=
    List.mem_append_left _ earlier
  rintro (none | hand)
  · cases mistake with
    | repeated own | outOfRange own | numbered own =>
      have := none m here
      rw [own] at this
      cases this
    | unnumbered own earlier given => exact given (none _ (there earlier))
  · cases mistake with
    | repeated own earlier =>
      have distinct := hand.distinct
      rw [List.map_append, List.nodup_append] at distinct
      exact distinct.2.2 _ earlier m.id List.mem_cons_self rfl
    | outOfRange own fresh outside =>
      obtain ⟨n, same, low, high⟩ := hand.inRange m here
      obtain rfl := MethodId.written.inj (own.symm.trans same)
      omega
    | numbered own range earlier without => exact hand.written (there earlier) without
    | unnumbered own => exact hand.written here own

/-- What the pass knows after some methods without a mistake: the numbers in use, and if there was a
method without one. -/
inductive Seen (before : List Method) : List Int → Bool → Prop
  | byHand {used : List Int} (numbers : NumberedByHand before)
      (same : ∀ n, n ∈ used ↔ .written n ∈ before.map Method.id) : Seen before used false
  | unnumbered (none : Unnumbered before) (some : before ≠ []) : Seen before [] true

theorem Seen.wellNumbered {before : List Method} {used : List Int} {unnumbered : Bool}
    (seen : Seen before used unnumbered) : WellNumbered before := by
  cases seen with
  | byHand numbers => exact .inr numbers
  | unnumbered none => exact .inl none

theorem Seen.mem_used_iff {before : List Method} {used : List Int} {unnumbered : Bool}
    (seen : Seen before used unnumbered) (n : Int) :
    n ∈ used ↔ .written n ∈ before.map Method.id := by
  cases seen with
  | byHand numbers same => exact same n
  | unnumbered none =>
    refine ⟨fun member => absurd member List.not_mem_nil, fun member => ?_⟩
    obtain ⟨k, earlier, written⟩ := List.mem_map.1 member
    have without := none k earlier
    rw [written] at without
    cases without

/-- The next method is a mistake and reported, or it joins those before it. -/
theorem Seen.next {before : List Method} {used : List Int} {unnumbered : Bool}
    (seen : Seen before used unnumbered) (file : String) (m : Method) (ms : List Method) :
    (∃ note, Mistake file before m note ∧
        idProblem? file used unnumbered (m :: ms) = some note) ∨
      ∃ used' unnumbered', Seen (before ++ [m]) used' unnumbered' ∧
        idProblem? file used unnumbered (m :: ms) = idProblem? file used' unnumbered' ms := by
  rw [idProblem?]
  cases own : m.id.written? with
  | some n =>
    have same := MethodId.written?_eq_some_iff.1 own
    have inUse : n ∈ used ↔ m.id ∈ before.map Method.id := by
      rw [same]
      exact seen.mem_used_iff n
    dsimp only
    split
    next repeated => exact .inl ⟨_, .repeated same (inUse.1 repeated), rfl⟩
    next fresh =>
      rw [inUse] at fresh
      split
      next outside => exact .inl ⟨_, .outOfRange same fresh outside, rfl⟩
      next inside =>
        have range : minMethodId ≤ n ∧ n ≤ maxMethodId := by omega
        cases seen with
        | byHand numbers known =>
          refine .inr ⟨n :: used, false, .byHand (numbers.snoc same fresh range) ?_, rfl⟩
          intro k
          rw [List.mem_cons, known, List.map_append, List.mem_append, List.map_singleton,
            List.mem_singleton, same, MethodId.written.injEq, or_comm]
        | unnumbered none some =>
          obtain ⟨k, earlier⟩ := List.exists_mem_of_ne_nil before some
          exact .inl ⟨_, .numbered same range earlier (none k earlier), rfl⟩
  | none =>
    have more : before ++ [m] ≠ [] := by simp
    dsimp only
    cases seen with
    | unnumbered none some => exact .inr ⟨[], true, .unnumbered (none.snoc own) more, rfl⟩
    | byHand numbers known =>
      -- a first method cannot mix the two ways; any other stands after one with a number
      cases before with
      | nil =>
        obtain rfl : used = [] := List.eq_nil_iff_forall_not_mem.2 fun n member =>
          List.not_mem_nil ((known n).1 member)
        refine .inr ⟨[], true, .unnumbered (Unnumbered.snoc ?_ own) more, rfl⟩
        exact fun k member => absurd member List.not_mem_nil
      | cons k ks =>
        obtain ⟨n, written, -⟩ := numbers.inRange k List.mem_cons_self
        have taken : n ∈ used := (known n).2 (List.mem_map.2 ⟨k, List.mem_cons_self, written⟩)
        rw [if_neg (by simpa using List.ne_nil_of_mem taken)]
        have given := numbers.written List.mem_cons_self
        exact .inl ⟨_, .unnumbered own List.mem_cons_self given, rfl⟩

/-- The pass reports the first mistake, or there is none. -/
theorem Seen.run {before : List Method} {used : List Int} {unnumbered : Bool}
    (seen : Seen before used unnumbered) (file : String) (methods : List Method) :
    (idProblem? file used unnumbered methods = none ∧ WellNumbered (before ++ methods)) ∨
      ∃ note earlier m later, idProblem? file used unnumbered methods = some note ∧
        before ++ methods = earlier ++ m :: later ∧ WellNumbered earlier ∧
        Mistake file earlier m note := by
  induction methods generalizing before used unnumbered with
  | nil =>
    rw [List.append_nil]
    exact .inl ⟨rfl, seen.wellNumbered⟩
  | cons m ms ih =>
    rcases seen.next file m ms with ⟨note, mistake, reported⟩ | ⟨used', unnumbered', joined, same⟩
    · exact .inr ⟨note, before, m, ms, reported, rfl, seen.wellNumbered, mistake⟩
    · rw [same, List.append_cons]
      exact ih joined

theorem Seen.start : Seen [] [] false :=
  .byHand .nil fun _ => ⟨fun member => absurd member List.not_mem_nil,
    fun member => absurd member List.not_mem_nil⟩

theorem idProblem?_eq_none_iff {file : String} {methods : List Method} :
    idProblem? file [] false methods = none ↔ WellNumbered methods := by
  rcases Seen.start.run file methods with ⟨silent, well⟩ | ⟨note, before, m, later, told, split, -,
    mistake⟩
  · exact ⟨fun _ => well, fun _ => silent⟩
  · rw [List.nil_append] at split
    rw [told, split]
    exact ⟨fun silent => absurd silent (Option.some_ne_none note),
      fun well => absurd well (mistake.not_wellNumbered later)⟩

theorem idProblem?_eq_some {file : String} {methods : List Method} {note : Diagnostic}
    (told : idProblem? file [] false methods = some note) :
    ∃ before m later, methods = before ++ m :: later ∧ WellNumbered before ∧
      Mistake file before m note := by
  rcases Seen.start.run file methods with ⟨silent, -⟩ | ⟨own, before, m, later, same, split⟩
  · rw [told] at silent
    cases silent
  · obtain rfl := Option.some.inj (told.symm.trans same)
    exact ⟨before, m, later, split⟩

theorem assignIds_errors (file : String) (methods : List Method) :
    AllErrors (assignIds file methods).2.toList := by
  unfold assignIds
  cases told : idProblem? file [] false methods with
  | none => exact .nil
  | some note =>
    obtain ⟨before, m, later, -, -, mistake⟩ := idProblem?_eq_some told
    exact .single mistake.isError

/-! ## The numbers given out -/

theorem set_of_unwritten {id : MethodId} (unwritten : id.written? = none) (n : Int) :
    id.set n = .assigned n := by
  cases id with
  | written value => cases unwritten
  | unset | assigned => rfl

theorem numbered_of_byHand {methods : List Method} (hand : NumberedByHand methods) :
    numbered methods = methods := by
  unfold numbered
  rw [if_neg]
  intro unwritten
  obtain ⟨m, member, without⟩ := List.any_eq_true.1 unwritten
  exact hand.written member (Option.isNone_iff_eq_none.1 without)

theorem numbered_of_unnumbered {methods : List Method} (none : Unnumbered methods) :
    numbered methods = methods.mapIdx fun i m => { m with id := .assigned i } := by
  cases methods with
  | nil => rfl
  | cons m ms =>
    have unwritten : (m :: ms).any (·.id.written?.isNone) = true := by
      rw [List.any_cons, none m List.mem_cons_self]
      rfl
    rw [numbered, if_pos unwritten, List.mapIdx_eq_zipIdx_map]
    refine List.map_congr_left ?_
    rintro ⟨k, i⟩ member
    have own := none k (List.fst_mem_of_mem_zipIdx member)
    simp only [setId, set_of_unwritten own]

/-- Numbers that are given out are no written ones. -/
theorem numbered_unnumbered {methods : List Method} (none : Unnumbered methods) :
    Unnumbered (numbered methods) := by
  intro m member
  rw [numbered_of_unnumbered none] at member
  obtain ⟨i, bound, rfl⟩ := List.mem_mapIdx.1 member
  rfl

theorem WellNumbered.numbered {methods : List Method} (well : WellNumbered methods) :
    WellNumbered (numbered methods) := by
  rcases well with none | hand
  · exact .inl (numbered_unnumbered none)
  · rw [numbered_of_byHand hand]
    exact .inr hand

theorem numbered_length (methods : List Method) :
    (numbered methods).length = methods.length := by
  unfold numbered
  split <;> simp

/-- Methods that are numbered once stay as they are. -/
theorem numbered_numbered {methods : List Method} (well : WellNumbered methods) :
    numbered (numbered methods) = numbered methods := by
  rcases well with none | hand
  · rw [numbered_of_unnumbered (numbered_unnumbered none), numbered_of_unnumbered none,
      List.mapIdx_mapIdx]
    rfl
  · rw [numbered_of_byHand hand, numbered_of_byHand hand]

/-- Each method has a number, which is in range if it is written, and less than the count of the
methods if not. -/
theorem numbered_values {methods : List Method} (well : WellNumbered methods) :
    ∀ m ∈ numbered methods, ∃ n, m.id.value? = some n ∧ minMethodId ≤ n ∧
      (n ≤ maxMethodId ∨ Unnumbered (numbered methods) ∧ n < methods.length) := by
  intro m member
  rcases well with none | hand
  · have fromZero := numbered_unnumbered none
    rw [numbered_of_unnumbered none] at member
    obtain ⟨i, bound, rfl⟩ := List.mem_mapIdx.1 member
    exact ⟨i, rfl, Int.natCast_nonneg i, .inr ⟨fromZero, by omega⟩⟩
  · rw [numbered_of_byHand hand] at member
    obtain ⟨n, own, low, high⟩ := hand.inRange m member
    rw [own]
    exact ⟨n, rfl, low, .inl high⟩

theorem numbered_distinct {methods : List Method} (well : WellNumbered methods) :
    ((numbered methods).map (·.id.value?)).Nodup := by
  rcases well with none | hand
  · have values : (numbered methods).map (·.id.value?) =
        (List.range methods.length).map fun i : Nat => some (i : Int) := by
      rw [numbered_of_unnumbered none]
      refine List.ext_getElem (by simp) ?_
      intro i _ _
      simp [MethodId.value?]
    rw [values]
    refine List.nodup_range.map ?_
    intro i j same
    exact Int.ofNat.inj (Option.some.inj same)
  · have values : methods.map (·.id.value?) = (methods.map Method.id).map MethodId.value? := by
      rw [List.map_map]
      rfl
    rw [numbered_of_byHand hand, values]
    refine List.Nodup.map_on ?_ hand.distinct
    intro id member other later same
    obtain ⟨m, inside, rfl⟩ := List.mem_map.1 member
    obtain ⟨k, within, rfl⟩ := List.mem_map.1 later
    obtain ⟨n, own, -⟩ := hand.inRange m inside
    obtain ⟨l, others, -⟩ := hand.inRange k within
    rw [own, others] at same ⊢
    rw [Option.some.inj same]

/-- Methods without a written number keep to the range as long as there are few enough of them. -/
theorem numbered_inRange {file : String} {methods : List Method}
    (silent : idProblem? file [] false methods = none)
    (few : (∀ m ∈ numbered methods, m.id.written? = none) →
      (numbered methods).length ≤ 16777215) :
    ∀ m ∈ numbered methods, ∀ n ∈ m.id.value?, minMethodId ≤ n ∧ n ≤ maxMethodId := by
  intro m member n value
  obtain ⟨k, own, low, high⟩ := numbered_values (idProblem?_eq_none_iff.1 silent) m member
  obtain rfl := Option.some.inj (own.symm.trans value)
  rcases high with high | ⟨none, bound⟩
  · exact ⟨low, high⟩
  · have count := few none
    rw [numbered_length] at count
    unfold maxMethodId
    exact ⟨low, by omega⟩

/-- A method is numbered without a change to anything else about it. -/
theorem of_mem_numbered {methods : List Method} {m : Method} (member : m ∈ numbered methods) :
    ∃ written ∈ methods, ∃ id, m = { written with id } := by
  unfold numbered at member
  split at member
  · obtain ⟨⟨written, i⟩, inside, rfl⟩ := List.mem_map.1 member
    exact ⟨written, List.fst_mem_of_mem_zipIdx inside, _, rfl⟩
  · exact ⟨m, member, m.id, rfl⟩

/-- Numbers are given without a change to any type. -/
theorem numbered_types (methods : List Method) :
    (numbered methods).map types = methods.map types := by
  unfold numbered
  split
  · have each : (types ∘ fun (x : Method × Nat) => x.1.setId x.2) = types ∘ Prod.fst := rfl
    rw [List.map_map, each, ← List.map_map, List.zipIdx_map_fst]
  · rfl

theorem assignIds_types (file : String) (methods : List Method) :
    (assignIds file methods).1.map types = methods.map types := by
  unfold assignIds
  split
  · rfl
  · exact numbered_types methods

theorem assignIds_of_wellNumbered {methods : List Method} (well : WellNumbered methods)
    (file : String) : assignIds file methods = (numbered methods, none) := by
  rw [assignIds, idProblem?_eq_none_iff.2 well]

/-- The numbers are accepted exactly if none is written or all are, different and in range. Written
numbers then stay and others count from zero, so that they are different either way, and to number
the methods again changes nothing. If the numbers are not accepted the methods are left as they are,
and the one report is about the first method that cannot follow those before it. -/
theorem assignIds_decides {file : String} {methods after : List Method}
    {problem : Option Diagnostic} (ran : assignIds file methods = (after, problem)) :
    (problem = none ↔ Unnumbered methods ∨ NumberedByHand methods) ∧
      (problem = none →
        (NumberedByHand methods → after = methods) ∧
        (Unnumbered methods → after = methods.mapIdx fun i m => { m with id := .assigned i }) ∧
        (after.map (·.id.value?)).Nodup ∧
        (∀ m ∈ after, ∃ n, m.id.value? = some n ∧
          (methods.length < 2 ^ 31 → 0 ≤ n ∧ n < 2 ^ 31)) ∧
        ∀ other, assignIds other after = (after, none)) ∧
      ∀ note, problem = some note → note.severity = .error ∧ after = methods ∧
        ∃ before m later, methods = before ++ m :: later ∧ WellNumbered before ∧
          Mistake file before m note := by
  unfold assignIds at ran
  cases told : idProblem? file [] false methods with
  | none =>
    have well := idProblem?_eq_none_iff.1 told
    rw [told] at ran
    cases ran
    refine ⟨⟨fun _ => well, fun _ => rfl⟩, fun _ => ?_, fun note reported => by cases reported⟩
    refine ⟨numbered_of_byHand, numbered_of_unnumbered, numbered_distinct well, ?_, ?_⟩
    · intro m member
      obtain ⟨n, own, low, high⟩ := numbered_values well m member
      refine ⟨n, own, fun few => ⟨low, ?_⟩⟩
      unfold maxMethodId at high
      omega
    · intro other
      rw [assignIds_of_wellNumbered well.numbered, numbered_numbered well]
  | some note =>
    rw [told] at ran
    cases ran
    obtain ⟨before, m, later, split, earlier, mistake⟩ := idProblem?_eq_some told
    have loud : some note ≠ none := Option.some_ne_none note
    refine ⟨⟨fun silent => absurd silent loud, fun well => ?_⟩,
      fun silent => absurd silent loud, ?_⟩
    · rw [split] at well
      exact absurd well (mistake.not_wellNumbered later)
    · rintro note ⟨rfl⟩
      exact ⟨mistake.isError, rfl, before, m, later, split, earlier, mistake⟩

/-- Methods `void f()` with these numbers. -/
def alike (ids : List MethodId) : List Method :=
  let nothing : TypeExpr := ⟨.fresh .nowhere "void" false "" .empty, none⟩
  ids.map fun id => { location := .nowhere, oneway := false, comments := "", returnType := nothing,
                      name := "f", arguments := [], id }

/-- Written numbers, no numbers, and a number that is written twice before a method without one. -/
theorem alike_decided :
    NumberedByHand (alike [.written 10, .written 3]) ∧
      (assignIds "I.aidl" (alike [.unset, .unset]) = (alike [.assigned 0, .assigned 1], none) ∧
        ((alike [.assigned 0, .assigned 1]).map (·.id.value?)).Nodup ∧
        assignIds "J.aidl" (alike [.assigned 0, .assigned 1]) =
          (alike [.assigned 0, .assigned 1], none)) ∧
      ∃ note before m later,
        assignIds "I.aidl" (alike [.written 7, .written 7, .unset]) =
          (alike [.written 7, .written 7, .unset], some note) ∧
        alike [.written 7, .written 7, .unset] = before ++ m :: later ∧
        Mistake "I.aidl" before m note := by
  have written : assignIds "I.aidl" (alike [.written 10, .written 3]) =
      (alike [.written 10, .written 3], none) := rfl
  have unwritten : assignIds "I.aidl" (alike [.unset, .unset]) =
      (alike [.assigned 0, .assigned 1], none) := rfl
  have twice : assignIds "I.aidl" (alike [.written 7, .written 7, .unset]) =
      (alike [.written 7, .written 7, .unset],
        some (.atPlace .nowhere (.repeatedMethodId 7 "f"))) := rfl
  obtain ⟨accepted, -⟩ := assignIds_decides written
  obtain ⟨-, given, -⟩ := assignIds_decides unwritten
  obtain ⟨-, -, reported⟩ := assignIds_decides twice
  obtain ⟨-, -, distinct, -, again⟩ := given rfl
  obtain ⟨-, -, before, m, later, split, -, mistake⟩ := reported _ rfl
  refine ⟨?_, ⟨unwritten, distinct, again "J.aidl"⟩, _, before, m, later, twice, split, mistake⟩
  refine (accepted.1 rfl).resolve_left fun none => ?_
  cases none _ List.mem_cons_self

end Method

end IdlFrontEnd
