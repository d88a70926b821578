import IdlFrontEnd.Proofs.Check.TypeRules

/-!
# The rules that constants are checked against

A constant is a number of type `int` or a string of type `String`. The check compares the text of
the type with these names; a text without brackets is that of a type without parameters that is no
array, so nothing else reads the same. A name is reported at each constant that repeats it, and what
is wrong with a type or a value at the constant itself. A value that could not be read has been
reported before and fails in silence, so here a failure need not have a report.
-/
namespace IdlFrontEnd

open Verdict

/-! ## Types by their text -/

namespace TypeExpr

/-- The type of this name, neither an array nor with parameters. -/
structure IsPlain (name : String) (t : TypeExpr) : Prop where
  canonical : t.head.canonical = some name
  single : t.head.isArray = false
  bare : t.params = none

/-- A text without brackets is a name. -/
theorem text_eq_iff {t : TypeExpr} {word : String} (noParams : '<' ∉ word.toList)
    (noArray : ']' ∉ word.toList) :
    t.text = word ↔ t.name = word ∧ t.head.isArray = false ∧ t.params = none := by
  obtain ⟨h, ps⟩ := t
  cases ps with
  | some ps =>
    refine ⟨fun same => absurd ?_ noParams, fun plain => by cases plain.2.2⟩
    simp [← same, text]
  | none =>
    cases array : h.isArray with
    | true =>
      refine ⟨fun same => absurd ?_ noArray, fun plain => absurd plain.2.1 (by decide)⟩
      simp [← same, text, TypeHead.arrayMark, array]
    | false => simp [text, TypeHead.arrayMark, array, TypeExpr.name]

theorem text_eq_iff_isPlain {t : TypeExpr} (resolved : t.isFullyResolved = true) {word : String}
    (supported : word ∈ Constant.typeNames) : t.text = word ↔ t.IsPlain word := by
  have bare : '<' ∉ word.toList ∧ ']' ∉ word.toList := by
    simp only [Constant.typeNames, List.mem_cons, List.not_mem_nil, or_false] at supported
    rcases supported with rfl | rfl <;> decide
  rw [text_eq_iff bare.1 bare.2, name_of_resolved resolved]
  exact ⟨fun ⟨found, single, bare⟩ => ⟨found, single, bare⟩,
    fun plain => ⟨plain.canonical, plain.single, plain.bare⟩⟩

theorem text_supported_iff {t : TypeExpr} (resolved : t.isFullyResolved = true) :
    t.text ∈ Constant.typeNames ↔ t.IsPlain "int" ∨ t.IsPlain "String" := by
  rw [← text_eq_iff_isPlain resolved (by decide), ← text_eq_iff_isPlain resolved (by decide)]
  simp [Constant.typeNames]

theorem IsPlain.arityNotes {t : TypeExpr} {name : String} (plain : t.IsPlain name) :
    t.arityNotes = [] := by
  obtain ⟨h, ps⟩ := t
  obtain rfl : ps = none := plain.bare
  rw [arityNotes_eq]
  rfl

end TypeExpr

/-! ## One constant -/

namespace Constant

/-- The type is one that constants have and the value is of that type. -/
inductive WellTyped (c : Constant) : Prop
  | int {n : Int} (type : c.type.IsPlain "int") (value : c.value.value = .int n)
  | string {quoted : String} (type : c.type.IsPlain "String")
      (value : c.value.value = .string quoted)

/-- What there is to report about the type and the value of a constant. A type with wrong parameters
is all that is reported. -/
inductive Reports (c : Constant) : List Diagnostic → Prop
  | parameters {notes : List Diagnostic} (told : c.type.ReportsOffences notes)
      (some : notes ≠ []) : Reports c notes
  | unreadable (arities : c.type.ReportsOffences []) (value : c.value.value = .invalid) :
      Reports c []
  | unsupported (arities : c.type.ReportsOffences []) (value : c.value.value ≠ .invalid)
      (type : ¬ (c.type.IsPlain "int" ∨ c.type.IsPlain "String")) :
      Reports c [.atPlace c.location (.constantType c.name c.type.text)]
  | mismatched (value : c.value.value ≠ .invalid)
      (type : c.type.IsPlain "int" ∨ c.type.IsPlain "String") (other : ¬ c.WellTyped) :
      Reports c [.atPlace c.location
        (.constantMismatch c.name c.type.text c.value.value.typeName)]
  | nothing (well : c.WellTyped) : Reports c []

theorem WellTyped.arityNotes {c : Constant} (well : c.WellTyped) : c.type.arityNotes = [] := by
  cases well with
  | int type | string type => exact type.arityNotes

theorem wellTyped_iff {c : Constant} (resolved : c.type.isFullyResolved = true) :
    c.WellTyped ↔ c.value.value ≠ .invalid ∧ c.value.value.typeName = c.type.text := by
  have type {word : String} (supported : word ∈ typeNames) :
      word = c.type.text ↔ c.type.IsPlain word :=
    eq_comm.trans (TypeExpr.text_eq_iff_isPlain resolved supported)
  constructor
  · intro well
    cases well with
    | int plain value =>
      rw [value]
      exact ⟨nofun, (type (by decide : "int" ∈ typeNames)).2 plain⟩
    | string plain value =>
      rw [value]
      exact ⟨nofun, (type (by decide : "String" ∈ typeNames)).2 plain⟩
  · rintro ⟨read, same⟩
    cases value : c.value.value with
    | invalid => exact absurd value read
    | int n =>
      rw [value] at same
      exact .int ((type (by decide)).1 same) value
    | string quoted =>
      rw [value] at same
      exact .string ((type (by decide)).1 same) value

theorem checkValue_tells {c : Constant} (resolved : c.type.isFullyResolved = true)
    (arities : c.type.ReportsOffences []) :
    ∃ passed notes, c.checkValue = .done passed notes ∧ (passed = true ↔ c.WellTyped) ∧
      c.Reports notes := by
  have supported := TypeExpr.text_supported_iff resolved
  have well := wellTyped_iff resolved
  unfold checkValue
  dsimp only
  split
  next invalid =>
    refine ⟨false, [], rfl, ?_, .unreadable arities invalid⟩
    rw [well]
    exact ⟨nofun, fun ⟨read, _⟩ => absurd invalid read⟩
  next read =>
    split
    next unsupported =>
      rw [supported] at unsupported
      refine ⟨false, _, rfl, ⟨nofun, fun own => absurd ?_ unsupported⟩,
        .unsupported arities read unsupported⟩
      cases own with
      | int plain => exact .inl plain
      | string plain => exact .inr plain
    next known =>
      have type := supported.1 (Decidable.not_not.1 known)
      split
      next other =>
        have ill : ¬ c.WellTyped := fun own => other (well.1 own).2
        exact ⟨false, _, rfl, ⟨nofun, fun own => absurd own ill⟩, .mismatched read type ill⟩
      next same =>
        have own := well.2 ⟨read, Decidable.not_not.1 same⟩
        exact ⟨true, [], rfl, ⟨fun _ => own, fun _ => rfl⟩, .nothing own⟩

theorem check_tells {c : Constant} (resolved : c.type.isFullyResolved = true) :
    ∃ passed notes, c.check = .done passed notes ∧ (passed = true ↔ c.WellTyped) ∧
      c.Reports notes := by
  have told := TypeExpr.arityNotes_reported resolved
  unfold check
  rw [TypeExpr.check_of_resolved resolved]
  cases same : c.type.arityNotes with
  | nil =>
    rw [same] at told
    obtain ⟨passed, notes, ended, rest⟩ := checkValue_tells resolved told
    exact ⟨passed, notes, by rw [ended]; rfl, rest⟩
  | cons note notes =>
    rw [same] at told
    refine ⟨false, note :: notes, rfl, ⟨nofun, fun well => ?_⟩, .parameters told nofun⟩
    rw [well.arityNotes] at same
    cases same

/-! ## All constants -/

/-- The report of a name that an earlier constant has. -/
def repeatedName (before : List Constant) (c : Constant) : List Diagnostic :=
  if c.name ∈ before.map name then [.atPlace c.location (.repeatedConstant c.name)] else []

theorem checkName_eq (c : Constant) (before : List Constant) :
    c.checkName before = .done (c.name ∉ before.map name) (repeatedName before c) := by
  have same : (before.any (·.name = c.name)) = true ↔ c.name ∈ before.map name := by
    simp
  unfold checkName repeatedName
  simp only [same]
  split
  next repeated => simp [ofNotes, repeated]
  next fresh => simp [ofNotes, fresh]

/-- Constants after `before` all pass if each is well typed and has a name of its own. There is one
row of reports for each. -/
theorem checkAll_tells {constants : List Constant}
    (resolved : ∀ c ∈ constants, c.type.isFullyResolved = true) (before : List Constant) :
    ∃ (passed : Bool) (told : List (List Diagnostic)),
      checkAll before constants = .done passed told.flatten ∧
      (passed = true ↔
        ((constants.map name).Nodup ∧ ∀ c ∈ constants, c.name ∉ before.map name) ∧
          ∀ c ∈ constants, c.WellTyped) ∧
      told.length = constants.length ∧
      ∀ earlier c later, constants = earlier ++ c :: later →
        ∃ own, c.Reports own ∧
          told[earlier.length]? = some (repeatedName (before ++ earlier) c ++ own) := by
  induction constants generalizing before with
  | nil =>
    refine ⟨true, [], rfl, by simp, rfl, fun earlier c later split => ?_⟩
    exact absurd split (by simp)
  | cons c cs ih =>
    obtain ⟨own, notes, ended, well, reports⟩ := check_tells (resolved c List.mem_cons_self)
    obtain ⟨rest, told, others, accepted, count, each⟩ :=
      ih (fun k member => resolved k (List.mem_cons_of_mem c member)) (before ++ [c])
    refine ⟨(decide (c.name ∉ before.map name) && own) && rest,
      (repeatedName before c ++ notes) :: told, ?_, ?_, ?_, ?_⟩
    · rw [checkAll, checkName_eq, ended, others]
      rfl
    · rw [Bool.and_eq_true, Bool.and_eq_true, decide_eq_true_iff, well, accepted,
        distinct_cons_iff, List.forall_mem_cons]
      tauto
    · rw [List.length_cons, List.length_cons, count]
    · intro earlier k later split
      cases earlier with
      | nil =>
        obtain ⟨rfl, rfl⟩ := List.cons.inj split
        exact ⟨notes, reports, by simp⟩
      | cons first earlier =>
        obtain ⟨rfl, rest⟩ := List.cons.inj split
        obtain ⟨notes, reports, found⟩ := each earlier k later rest
        exact ⟨notes, reports, by simpa using found⟩

end Constant

namespace Declaration

/-- The check of resolved constants comes to an end. It passes exactly if the names are different
and every constant is well typed. A constant that repeats the name of an earlier one is reported for
that, and each for what is wrong with its own type and value, in the order of writing. -/
theorem checkConstants_decides {d : Declaration} {oneway : Bool} {methods : List Method}
    {constants : List Constant} (interface : d.body = .interface oneway methods constants)
    (resolved : ∀ c ∈ constants, c.type.isFullyResolved = true) :
    ∃ (passed : Bool) (told : List (List Diagnostic)),
      d.checkConstants.result = .ok passed ∧
      (passed = true ↔ (constants.map Constant.name).Nodup ∧ ∀ c ∈ constants, c.WellTyped) ∧
      d.checkConstants.notes = told.flatten ∧ told.length = constants.length ∧
      ∀ before c after, constants = before ++ c :: after →
        ∃ own, c.Reports own ∧
          told[before.length]? = some (Constant.repeatedName before c ++ own) := by
  obtain ⟨passed, told, ended, accepted, count, each⟩ := Constant.checkAll_tells resolved []
  have same : d.checkConstants = .done passed told.flatten := by
    rw [checkConstants, interface]
    exact ended
  rw [same]
  refine ⟨passed, told, rfl, ?_, rfl, count, each⟩
  rw [accepted, List.map_nil]
  simp only [List.not_mem_nil, not_false_eq_true, implies_true, and_true]

/-- `const int A = 1; const List<int,int> A = 2; const int B = …; const int[] C = 3;
const String D = 4;`, where the value of `B` could not be read. -/
def crookedConstants : List Constant :=
  let head (name : String) (isArray : Bool) : TypeHead :=
    { TypeHead.fresh .nowhere name isArray "" .empty with canonical := some name }
  let int : TypeExpr := ⟨head "int" false, none⟩
  let constant (type : TypeExpr) (name : String) (value : LiteralValue) : Constant :=
    ⟨.nowhere, type, name, .nowhere, value⟩
  [constant int "A" (.int 1), constant ⟨head "List" false, some [int, int]⟩ "A" (.int 2),
    constant int "B" .invalid, constant ⟨head "int" true, none⟩ "C" (.int 3),
    constant ⟨head "String" false, none⟩ "D" (.int 4)]

def ofConstants (constants : List Constant) : Declaration :=
  ofMembers .nowhere "I" "" false (constants.map .constant) []

theorem crookedConstants_decided :
    (∀ c ∈ crookedConstants, c.type.isFullyResolved = true) ∧
      (ofConstants crookedConstants).checkConstants.result = .ok false ∧
      (ofConstants crookedConstants).checkConstants.notes.map Diagnostic.message =
        ["Found duplicate constant name 'A'",
         "List cannot have type parameters more than one, but got 'List<int,int>'",
         "Constant 'C' has unsupported type 'int[]'",
         "Constant 'D' is declared as String but its value is of type int"] ∧
      ¬ ((crookedConstants.map Constant.name).Nodup ∧ ∀ c ∈ crookedConstants, c.WellTyped) ∧
      (ofConstants (crookedConstants.take 1)).checkConstants.result = .ok true ∧
      ∀ c ∈ crookedConstants.take 1, c.WellTyped := by
  have resolved : ∀ c ∈ crookedConstants, c.type.isFullyResolved = true := by decide +kernel
  have some : ∀ c ∈ crookedConstants.take 1, c.type.isFullyResolved = true := by decide +kernel
  have interface : (ofConstants crookedConstants).body = .interface false [] crookedConstants := rfl
  have single : (ofConstants (crookedConstants.take 1)).body =
      .interface false [] (crookedConstants.take 1) := rfl
  have failed : (ofConstants crookedConstants).checkConstants.result = .ok false := by
    decide +kernel
  have passes : (ofConstants (crookedConstants.take 1)).checkConstants.result = .ok true := by
    decide +kernel
  obtain ⟨passed, -, ended, broken, -⟩ := checkConstants_decides interface resolved
  obtain ⟨accepted, -, through, kept, -⟩ := checkConstants_decides single some
  obtain rfl := Except.ok.inj (failed.symm.trans ended)
  obtain rfl := Except.ok.inj (passes.symm.trans through)
  exact ⟨resolved, failed, by decide +kernel, fun rules => Bool.false_ne_true (broken.2 rules),
    passes, (kept.1 rfl).2⟩

end Declaration

end IdlFrontEnd
