import IdlFrontEnd.Proofs.Check

/-!
# The rules that types are checked against

What the check of a declaration asks for, said without the check. Only lists and maps take type
parameters, and only so many; an argument goes in a direction that its type allows; a oneway method
has nothing to send back; the methods of an interface have different names. A resolved declaration
passes exactly if it keeps these rules, and it passes exactly if nothing is reported about it.
-/
namespace IdlFrontEnd

/-! ## Verdicts that pass -/

namespace Verdict

theorem pass_passes : Verdict.pass.result = .ok true := rfl

theorem ofNotes_passes {notes : List Diagnostic} :
    (ofNotes notes).result = .ok true ↔ notes = [] := by
  cases notes <;> simp [ofNotes, result]

theorem andThen_passes {v w : Verdict} :
    (v.andThen w).result = .ok true ↔ v.result = .ok true ∧ w.result = .ok true := by
  cases v <;> cases w <;> simp [andThen, result]

theorem ifPassed_passes {v w : Verdict} :
    (v.ifPassed w).result = .ok true ↔ v.result = .ok true ∧ w.result = .ok true := by
  cases v with
  | stopped => simp [ifPassed, result]
  | done passed notes =>
    cases passed with
    | true => exact andThen_passes
    | false => simp [ifPassed, result]

theorem all_passes {vs : List Verdict} :
    (all vs).result = .ok true ↔ ∀ v ∈ vs, v.result = .ok true := by
  induction vs with
  | nil => simp [all, pass_passes]
  | cons v vs ih =>
    rw [List.forall_mem_cons, ← ih]
    exact andThen_passes

/-- A report that is only made under a condition lets pass where the condition fails. -/
theorem if_passes {c : Prop} [Decidable c] {n : Diagnostic} :
    (ofNotes (if c then [n] else [])).result = .ok true ↔ ¬ c := by
  rw [ofNotes_passes]
  split <;> simp_all

/-- Names that differ from each other and from those before them, checked one after the other. -/
theorem distinct_cons_iff {α : Type} {name : α → String} {before as : List α} {a : α} :
    ((a :: as).map name).Nodup ∧ (∀ b ∈ a :: as, name b ∉ before.map name) ↔
      name a ∉ before.map name ∧ (as.map name).Nodup ∧
        ∀ b ∈ as, name b ∉ (before ++ [a]).map name := by
  -- the names after this one differ from those before it and from its own
  have apart : (∀ b ∈ as, name b ∉ (before ++ [a]).map name) ↔
      name a ∉ as.map name ∧ ∀ b ∈ as, name b ∉ before.map name := by
    simp only [List.map_append, List.mem_append, List.map_singleton, List.mem_singleton, not_or,
      imp_and, forall_and]
    refine and_comm.trans (and_congr_left fun _ => ?_)
    simp [eq_comm]
  rw [apart, List.map_cons, List.nodup_cons, List.forall_mem_cons]
  constructor
  · rintro ⟨⟨own, distinct⟩, fresh, rest⟩
    exact ⟨fresh, distinct, own, rest⟩
  · rintro ⟨fresh, distinct, own, rest⟩
    exact ⟨⟨own, distinct⟩, fresh, rest⟩

/-- A plain verdict does not stop, and it passes exactly if it reports nothing. -/
theorem Plain.passes_iff {v : Verdict} (plain : v.Plain) :
    ∃ passed, v.result = .ok passed ∧ (passed = true ↔ v.notes = []) := by
  obtain ⟨notes, rfl, -⟩ := plain
  exact ⟨notes.isEmpty, rfl, List.isEmpty_iff⟩

end Verdict

open Verdict

/-! ## Parameters -/

namespace TypeExpr

/-- A type that takes parameters is a list with at most one or a map with none or two. -/
def KeepsArity (t : TypeExpr) : Prop :=
  ∀ ps, t.params = some ps →
    (t.name = "List" ∨ t.name = "java.util.List") ∧ ps.length ≤ 1 ∨
      (t.name = "Map" ∨ t.name = "java.util.Map") ∧ (ps.length = 0 ∨ ps.length = 2)

theorem arityFault?_eq_none_iff {t : TypeExpr} : t.arityFault? = none ↔ t.KeepsArity := by
  unfold arityFault? KeepsArity
  cases t.params with
  | none => simp
  | some ps =>
    rw [Option.bind_some]
    constructor
    · intro none qs same
      cases same
      split at none
      next list =>
        split at none
        next few => exact .inl ⟨list, few⟩
        next => cases none
      next =>
        split at none
        next map =>
          split at none
          next count => exact .inr ⟨map, count⟩
          next => cases none
        next => cases none
    · intro keeps
      rcases keeps ps rfl with ⟨list, few⟩ | ⟨map, count⟩
      · rw [if_pos list, if_pos few]
      · have other : ¬ (t.name = "List" ∨ t.name = "java.util.List") := by
          rcases map with map | map <;> simp [map]
        rw [if_neg other, if_pos map, if_pos count]

/-- The type and all that is nested in it take the parameters that they may. -/
def KeepsArities (t : TypeExpr) : Prop := ∀ p : TypeExpr, p.Within t → p.KeepsArity

theorem arityNotes_eq_nil_iff {t : TypeExpr} : t.arityNotes = [] ↔ t.KeepsArities := by
  simp only [arityNotes, List.filterMap_eq_nil_iff, Option.map_eq_none_iff,
    arityFault?_eq_none_iff, mem_parts_iff, KeepsArities]

theorem check_passes {t : TypeExpr} :
    t.check.result = .ok true ↔ t.isFullyResolved = true ∧ t.KeepsArities := by
  cases resolved : t.isFullyResolved with
  | true =>
    rw [check_of_resolved resolved, ofNotes_passes, arityNotes_eq_nil_iff, and_iff_right rfl]
  | false => simp [check_of_unresolved resolved, fault, result]

theorem name_of_resolved {t : TypeExpr} (resolved : t.isFullyResolved = true) (name : String) :
    t.name = name ↔ t.head.canonical = some name := by
  obtain ⟨h, ps⟩ := t
  rw [isFullyResolved_eq, Bool.and_eq_true] at resolved
  obtain ⟨found, same⟩ := Option.isSome_iff_exists.1 resolved.1
  simp [TypeExpr.name, TypeHead.name, same]

end TypeExpr

/-- A value of the type can carry data back: an array, a list or map, or a parcelable that the
registry finds under the name of the type. -/
def Registry.CarriesBack (g : Registry) (t : TypeExpr) : Prop :=
  t.head.isArray = true ∨ t.name ∈ containers ∨
    t.name ∉ builtins ∧ ∃ r, g.lookup? t.name = some r ∧ r.kind ≠ .interface

theorem Registry.canBeOut_iff {g : Registry} {t : TypeExpr} :
    g.canBeOut t = true ↔ g.CarriesBack t := by
  unfold canBeOut CarriesBack isBuiltin
  rw [← or_assoc]
  split
  next plain => simp [plain]
  next other =>
    split
    next builtin => simp_all
    next own => simp_all [Option.any_eq_true]

/-! ## Arguments and methods -/

/-- What is asked of an argument besides a well-formed type. -/
structure Argument.Lawful (g : Registry) (a : Argument) : Prop where
  directed : g.CarriesBack a.type → a.written ≠ none
  carries : a.direction ≠ .input → g.CarriesBack a.type
  unreserved : a.name ∉ reservedWords
  free : ¬ "_aidl".toList <+: a.name.toList

theorem Argument.fault?_eq_none_iff {a : Argument} {g : Registry} :
    a.fault? g = none ↔ a.Lawful g := by
  have start : Text.startsWith "_aidl" a.name = true ↔ "_aidl".toList <+: a.name.toList :=
    List.isPrefixOf_iff_prefix
  have back : g.canBeOut a.type = true ↔ g.CarriesBack a.type := Registry.canBeOut_iff
  unfold fault?
  constructor
  · intro none
    split at none
    · cases none
    next directed =>
      split at none
      · cases none
      next carries =>
        split at none
        · cases none
        next unreserved =>
          split at none
          · cases none
          next free =>
            exact ⟨fun carried unwritten => directed ⟨by simp [unwritten], back.2 carried⟩,
              fun out => back.1 (Decidable.byContradiction fun inward => carries ⟨out, inward⟩),
              unreserved, fun own => free (start.2 own)⟩
  · intro lawful
    rw [if_neg, if_neg, if_neg lawful.unreserved, if_neg fun own => lawful.free (start.1 own)]
    · exact fun ⟨out, inward⟩ => inward (back.2 (lawful.carries out))
    · exact fun ⟨unwritten, carried⟩ => lawful.directed (back.1 carried) (by simpa using unwritten)

theorem Argument.check_passes {a : Argument} {g : Registry} {index : Nat} :
    (a.check g index).result = .ok true ↔
      a.type.isFullyResolved = true ∧ a.type.KeepsArities ∧ a.Lawful g := by
  unfold check
  rw [ifPassed_passes, TypeExpr.check_passes, ofNotes_passes, Option.toList_eq_nil_iff,
    Option.map_eq_none_iff, fault?_eq_none_iff, and_assoc]

namespace Method

/-- The method is written as oneway, or stands in a oneway interface. -/
def IsOneway (m : Method) (interface : Bool) : Prop := m.oneway = true ∨ interface = true

/-- What is asked of a method alone. -/
structure Lawful (g : Registry) (interface : Bool) (m : Method) : Prop where
  arities : ∀ t ∈ m.types, t.KeepsArities
  returnsNothing : m.IsOneway interface → m.returnType.head.canonical = some "void"
  sendsNothing : m.IsOneway interface → ∀ a ∈ m.arguments, a.direction = .input
  arguments : ∀ a ∈ m.arguments, a.Lawful g

theorem checkName_passes {m : Method} {before : List Method} :
    (m.checkName before).result = .ok true ↔ m.name ∉ before.map name := by
  have unused : before.find? (·.name = m.name) = none ↔ m.name ∉ before.map name := by
    simp [List.find?_eq_none]
  rw [← unused]
  unfold checkName
  cases before.find? (·.name = m.name) with
  | none => simp [pass_passes]
  | some previous => simp [ofNotes_passes]

theorem onewayOutput_passes {m : Method} {oneway : Bool} {a : Argument} :
    (m.onewayOutput oneway a).result = .ok true ↔ (oneway = true → a.direction = .input) := by
  unfold onewayOutput
  rw [if_passes]
  cases h : a.direction <;> simp [Argument.isOut, Direction.isOut, h]

theorem checkArguments_passes {m : Method} {g : Registry} {oneway : Bool} :
    (m.checkArguments g oneway).result = .ok true ↔
      ∀ a ∈ m.arguments, (a.type.isFullyResolved = true ∧ a.type.KeepsArities ∧ a.Lawful g) ∧
        (oneway = true → a.direction = .input) := by
  unfold checkArguments
  rw [all_passes, List.forall_mem_map]
  simp only [andThen_passes, Argument.check_passes, onewayOutput_passes]
  constructor
  · intro each a member
    rw [← List.zipIdx_map_fst 0 m.arguments] at member
    obtain ⟨indexed, inside, rfl⟩ := List.mem_map.1 member
    exact each indexed inside
  · intro each indexed inside
    exact each indexed.1 (List.fst_mem_of_mem_zipIdx inside)

theorem check_passes {m : Method} {g : Registry} {interface : Bool} {before : List Method} :
    (m.check g interface before).result = .ok true ↔
      (∀ t ∈ m.types, t.isFullyResolved = true) ∧ m.Lawful g interface ∧
        m.name ∉ before.map name := by
  have oneway : (m.oneway || interface) = true ↔ m.IsOneway interface :=
    Bool.or_eq_true_iff
  unfold check
  simp only [all_passes, List.forall_mem_cons, List.not_mem_nil, false_implies, implies_true,
    and_true, TypeExpr.check_passes, checkName_passes, checkArguments_passes, onewayReturn,
    if_passes, oneway, not_and, Decidable.not_not]
  constructor
  · rintro ⟨⟨resolved, arities⟩, returns, arguments, fresh⟩
    have types {P : TypeExpr → Prop} (own : P m.returnType) (others : ∀ a ∈ m.arguments, P a.type) :
        ∀ t ∈ m.types, P t :=
      List.forall_mem_cons.2 ⟨own, List.forall_mem_map.2 others⟩
    exact ⟨types resolved fun a member => (arguments a member).1.1,
      ⟨types arities fun a member => (arguments a member).1.2.1,
        fun own => (TypeExpr.name_of_resolved resolved _).1 (returns own),
        fun own a member => (arguments a member).2 own,
        fun a member => (arguments a member).1.2.2⟩, fresh⟩
  · rintro ⟨resolved, lawful, fresh⟩
    have ofArgument {a : Argument} (member : a ∈ m.arguments) : a.type ∈ m.types :=
      List.mem_cons_of_mem _ (List.mem_map.2 ⟨a, member, rfl⟩)
    have own := resolved m.returnType List.mem_cons_self
    exact ⟨⟨own, lawful.arities _ List.mem_cons_self⟩,
      fun oneway => (TypeExpr.name_of_resolved own _).2 (lawful.returnsNothing oneway),
      fun a member => ⟨⟨resolved _ (ofArgument member), lawful.arities _ (ofArgument member),
        lawful.arguments a member⟩, fun oneway => lawful.sendsNothing oneway a member⟩, fresh⟩

/-- The methods after `before` pass if each is lawful and none has the name of an earlier one. -/
theorem checkAll_passes {g : Registry} {interface : Bool} {before methods : List Method} :
    (checkAll g interface before methods).result = .ok true ↔
      (∀ m ∈ methods, ∀ t ∈ m.types, t.isFullyResolved = true) ∧
        (∀ m ∈ methods, m.Lawful g interface) ∧
        (methods.map name).Nodup ∧ ∀ m ∈ methods, m.name ∉ before.map name := by
  induction methods generalizing before with
  | nil => simp [checkAll, pass_passes]
  | cons m ms ih =>
    rw [checkAll, andThen_passes, check_passes, ih, distinct_cons_iff]
    simp only [List.forall_mem_cons]
    constructor
    · rintro ⟨⟨resolved, lawful, fresh⟩, others, laws, distinct⟩
      exact ⟨⟨resolved, others⟩, ⟨lawful, laws⟩, fresh, distinct⟩
    · rintro ⟨⟨resolved, others⟩, ⟨lawful, laws⟩, fresh, distinct⟩
      exact ⟨⟨resolved, lawful, fresh⟩, others, laws, distinct⟩

end Method

/-! ## Declarations -/

namespace Declaration

/-- The rules for a declaration of each kind. -/
def KeepsTypeRules (g : Registry) (d : Declaration) : Prop :=
  match d.body with
  | .parcelable .. => True
  | .structured _ fields => ∀ f ∈ fields, f.type.KeepsArities
  | .interface oneway methods _ =>
    ¬ (d.header.annotations.utf8 = true ∧ d.header.annotations.utf8InCpp = true) ∧
      (∀ m ∈ methods, m.Lawful g oneway) ∧ (methods.map Method.name).Nodup

/-- The types that the check of a declaration looks at. -/
def checkedTypes (d : Declaration) : List TypeExpr :=
  match d.body with
  | .parcelable .. => []
  | .structured _ fields => fields.map Field.type
  | .interface _ methods _ => methods.flatMap Method.types

theorem checkTypes_passes {d : Declaration} {g : Registry} :
    (d.checkTypes g).result = .ok true ↔
      (∀ t ∈ d.checkedTypes, t.isFullyResolved = true) ∧ d.KeepsTypeRules g := by
  obtain ⟨header, body⟩ := d
  cases body with
  | parcelable name cppHeader => simp [checkTypes, checkedTypes, KeepsTypeRules, pass_passes]
  | structured name fields =>
    simp only [checkTypes, all_passes, List.forall_mem_map, TypeExpr.check_passes, imp_and,
      forall_and, checkedTypes, KeepsTypeRules]
  | interface oneway methods constants =>
    simp only [checkTypes, encodings, andThen_passes, if_passes, Method.checkAll_passes,
      checkedTypes, KeepsTypeRules, List.forall_mem_flatMap, List.map_nil, List.not_mem_nil,
      not_false_eq_true, implies_true, and_true]
    exact and_left_comm

theorem checkedTypes_subset (d : Declaration) : d.checkedTypes ⊆ d.types := by
  obtain ⟨header, body⟩ := d
  cases body with
  | parcelable | structured => exact List.Subset.refl _
  | interface => exact List.subset_append_left _ _

/-- The check of a resolved declaration comes to an end against any registry. It passes exactly if
it reports nothing, and exactly if the declaration keeps the rules. -/
theorem checkTypes_decides (d : Declaration) (g : Registry)
    (resolved : ∀ t ∈ d.types, t.isFullyResolved = true) :
    ∃ passed, (d.checkTypes g).result = .ok passed ∧
      (passed = true ↔ (d.checkTypes g).notes = []) ∧ (passed = true ↔ d.KeepsTypeRules g) := by
  obtain ⟨passed, ended, silent⟩ := (checkTypes_plain resolved g).passes_iff
  refine ⟨passed, ended, silent, ?_⟩
  have rules := checkTypes_passes (d := d) (g := g)
  rw [ended, and_iff_right fun t member => resolved t (d.checkedTypes_subset member)] at rules
  rw [← rules, Except.ok.injEq]

/-- A parcelable of a package, which data can come back in. -/
def letters : Registry :=
  ((Registry.empty.addDefined? ⟨.structuredParcelable, "Letter", ["post"]⟩).getD .empty)

/-- A oneway interface with a list of letters as the only argument of its only method. -/
def courier (direction : Direction) : Declaration :=
  let named (name : String) := TypeHead.fresh .nowhere name false "" .empty
  let list : TypeExpr := ⟨named "List", some [⟨named "Letter", none⟩]⟩
  let send : Method :=
    ⟨.nowhere, false, "", ⟨named "void", none⟩, "send", [⟨.nowhere, some direction, list, "all"⟩],
      .unset⟩
  (ofMembers .nowhere "ICourier" "" true [.method send] ["post"]).mapTypes
    (.resolve (letters.canonical? []))

theorem courier_decided :
    (∀ t ∈ (courier .input).types, t.isFullyResolved = true) ∧
      ((courier .input).checkTypes letters).notes = [] ∧ (courier .input).KeepsTypeRules letters ∧
      (∀ t ∈ (courier .both).types, t.isFullyResolved = true) ∧
      ((courier .both).checkTypes letters).notes ≠ [] ∧
      ¬ (courier .both).KeepsTypeRules letters := by
  have resolved : ∀ t ∈ (courier .input).types, t.isFullyResolved = true := by decide +kernel
  have others : ∀ t ∈ (courier .both).types, t.isFullyResolved = true := by decide +kernel
  obtain ⟨passed, ended, silent, rules⟩ := checkTypes_decides (courier .input) letters resolved
  obtain ⟨failed, stopped, told, broken⟩ := checkTypes_decides (courier .both) letters others
  have nothing : ((courier .input).checkTypes letters).notes = [] := by decide +kernel
  have something : ((courier .both).checkTypes letters).notes ≠ [] := by decide +kernel
  exact ⟨resolved, nothing, rules.1 (silent.2 nothing), others, something,
    fun kept => something (told.1 (broken.2 kept))⟩

end Declaration

end IdlFrontEnd
