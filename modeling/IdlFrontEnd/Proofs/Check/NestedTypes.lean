import IdlFrontEnd.Check.Types
import IdlFrontEnd.Proofs.TypeExpr.Paths
import Mathlib.Data.List.Forall2

/-!
# What the check of a type reports

The check of a type asks at every depth whether all of what is left to check is resolved. It is
enough to ask once: a type that is resolved holds no parameter that is not, so no check of a
parameter stops what was begun outside. A type that is not resolved is reported as such and not
looked into; any other gets one report for each place where parameters are taken that may not be,
in the order of the paths.
-/
namespace IdlFrontEnd.TypeExpr

open Verdict

/-! ## One pass over all parts -/

theorem arityNotes_eq (h : TypeHead) (ps : Option (List TypeExpr)) :
    arityNotes ⟨h, ps⟩ =
      ((arityFault? ⟨h, ps⟩).map (.atPlace h.location)).toList ++ (ps.getD []).flatMap arityNotes := by
  unfold arityNotes
  rw [parts_eq, List.filterMap_cons, List.filterMap_flatMap]
  cases arityFault? ⟨h, ps⟩ <;> rfl

theorem check_of_resolved {t : TypeExpr} (resolved : t.isFullyResolved = true) :
    t.check = .ofNotes t.arityNotes := by
  induction t using TypeExpr.induction with
  | bare h =>
    rw [check, if_pos resolved, arityNotes_eq]
    rfl
  | params h ps ih =>
    have inner : ∀ p ∈ ps, p.isFullyResolved = true := by
      rw [isFullyResolved_eq, Bool.and_eq_true] at resolved
      exact List.all_eq_true.1 resolved.2
    have each (qs : List TypeExpr) (among : qs ⊆ ps) :
        checkEach qs = .ofNotes (qs.flatMap arityNotes) := by
      induction qs with
      | nil => rfl
      | cons q qs others =>
        obtain ⟨own, rest⟩ := List.cons_subset.1 among
        rw [checkEach, ih q own (inner q own), others rest, ofNotes_andThen, List.flatMap_cons]
    rw [check, if_pos resolved, each ps (List.Subset.refl ps), checkArity, ofNotes_andThen,
      arityNotes_eq]
    rfl

theorem check_of_unresolved {t : TypeExpr} (unresolved : t.isFullyResolved = false) :
    t.check = .fault t.unresolvedFault := by
  obtain ⟨h, ps⟩ := t
  cases ps <;> simp [check, unresolved]

/-! ## Offences -/

/-- The type takes parameters that it may not take, for this cause. -/
inductive Offence (t : TypeExpr) : Cause → Prop
  | list {ps : List TypeExpr} (params : t.params = some ps)
      (name : t.head.canonical = some "List" ∨ t.head.canonical = some "java.util.List")
      (many : 1 < ps.length) : Offence t (.listArity t.text)
  | map {ps : List TypeExpr} (params : t.params = some ps)
      (name : t.head.canonical = some "Map" ∨ t.head.canonical = some "java.util.Map")
      (some : ps.length ≠ 0) (other : ps.length ≠ 2) : Offence t (.mapArity t.text)
  | other {ps : List TypeExpr} {name : String} (params : t.params = some ps)
      (found : t.head.canonical = some name)
      (plain : name ≠ "List" ∧ name ≠ "java.util.List" ∧ name ≠ "Map" ∧ name ≠ "java.util.Map") :
      Offence t (.notGeneric name t.text)

theorem arityFault?_eq_some_iff {t : TypeExpr} {name : String} {cause : Cause}
    (found : t.head.canonical = some name) : t.arityFault? = some cause ↔ t.Offence cause := by
  have own : t.name = name := by
    unfold TypeExpr.name TypeHead.name
    rw [found, Option.getD_some]
  unfold arityFault?
  rw [own]
  constructor
  · intro fault
    obtain ⟨ps, params, fault⟩ := Option.bind_eq_some_iff.1 fault
    split at fault
    next list =>
      split at fault
      · cases fault
      next many =>
        cases fault
        exact .list params (by simpa [found] using list) (by omega)
    next notList =>
      split at fault
      next map =>
        split at fault
        · cases fault
        next count =>
          cases fault
          obtain ⟨some, other⟩ := not_or.1 count
          exact .map params (by simpa [found] using map) some other
      next notMap =>
        cases fault
        obtain ⟨first, second⟩ := not_or.1 notList
        exact .other params found ⟨first, second, not_or.1 notMap⟩
  · intro offence
    cases offence with
    | list params list many =>
      rw [found, Option.some.injEq, Option.some.injEq] at list
      rw [params, Option.bind_some, if_pos list, if_neg (by omega)]
    | map params map some other =>
      rw [found, Option.some.injEq, Option.some.injEq] at map
      have notList : ¬ (name = "List" ∨ name = "java.util.List") := by
        rcases map with rfl | rfl <;> decide
      rw [params, Option.bind_some, if_neg notList, if_pos map, if_neg (not_or.2 ⟨some, other⟩)]
    | other params same plain =>
      obtain rfl := Option.some.inj (found.symm.trans same)
      obtain ⟨first, second, notMap⟩ := plain
      rw [params, Option.bind_some, if_neg (not_or.2 ⟨first, second⟩), if_neg (not_or.2 notMap)]

/-- There is one report for each nested type that takes parameters it may not, in the order of the
paths. -/
def ReportsOffences (t : TypeExpr) (notes : List Diagnostic) : Prop :=
  ∃ paths : List (List Nat), paths.Pairwise (· < ·) ∧
    (∀ path, path ∈ paths ↔ ∃ p cause, t.at? path = some p ∧ p.Offence cause) ∧
    List.Forall₂ (fun path n =>
      ∃ p cause, t.at? path = some p ∧ p.Offence cause ∧ n = .atPlace p.head.location cause)
      paths notes

/-- What a partial function gives for a list stands against the elements that it is defined for. -/
theorem forall₂_filterMap {α β : Type} (f : α → Option β) (as : List α) :
    List.Forall₂ (fun a b => f a = some b) (as.filter fun a => (f a).isSome) (as.filterMap f) := by
  induction as with
  | nil => exact .nil
  | cons a as ih =>
    cases given : f a with
    | none => simpa [given] using ih
    | some b => simpa [given] using ih

/-- The report for what a path leads to. -/
def noteAt? (t : TypeExpr) (path : List Nat) : Option Diagnostic :=
  (t.at? path).bind fun p => p.arityFault?.map (.atPlace p.head.location)

theorem filterMap_noteAt? (t : TypeExpr) : t.paths.filterMap t.noteAt? = t.arityNotes := by
  have led : t.paths.filterMap t.noteAt? =
      (t.paths.map (at? · t)).filterMap fun o =>
        o.bind fun p => p.arityFault?.map (.atPlace p.head.location) := by
    rw [List.filterMap_map]
    rfl
  rw [led, map_at?_paths, List.filterMap_map]
  rfl

theorem noteAt?_eq_some_iff {t : TypeExpr} (resolved : t.isFullyResolved = true) {path : List Nat}
    {n : Diagnostic} : t.noteAt? path = some n ↔
      ∃ p cause, t.at? path = some p ∧ p.Offence cause ∧ n = .atPlace p.head.location cause := by
  simp only [noteAt?, Option.bind_eq_some_iff, Option.map_eq_some_iff]
  constructor
  · rintro ⟨p, leads, cause, fault, rfl⟩
    obtain ⟨name, found⟩ := (isFullyResolved_iff_paths t).1 resolved path p leads
    exact ⟨p, cause, leads, (arityFault?_eq_some_iff found).1 fault, rfl⟩
  · rintro ⟨p, cause, leads, offence, rfl⟩
    obtain ⟨name, found⟩ := (isFullyResolved_iff_paths t).1 resolved path p leads
    exact ⟨p, leads, cause, (arityFault?_eq_some_iff found).2 offence, rfl⟩

theorem arityNotes_reported {t : TypeExpr} (resolved : t.isFullyResolved = true) :
    t.ReportsOffences t.arityNotes := by
  refine ⟨t.paths.filter fun path => (t.noteAt? path).isSome, t.paths_ascending.filter _, ?_, ?_⟩
  · intro path
    rw [List.mem_filter, mem_paths_iff, Option.isSome_iff_exists]
    simp only [noteAt?_eq_some_iff resolved]
    constructor
    · rintro ⟨-, n, p, cause, leads, offence, -⟩
      exact ⟨p, cause, leads, offence⟩
    · rintro ⟨p, cause, leads, offence⟩
      exact ⟨⟨p, leads⟩, _, p, cause, leads, offence, rfl⟩
  · rw [← filterMap_noteAt?]
    exact (forall₂_filterMap t.noteAt? t.paths).imp fun path n => (noteAt?_eq_some_iff resolved).1

theorem ReportsOffences.eq_nil_iff {t : TypeExpr} {notes : List Diagnostic}
    (told : t.ReportsOffences notes) :
    notes = [] ↔ ∀ path p cause, t.at? path = some p → ¬ p.Offence cause := by
  obtain ⟨paths, -, offending, each⟩ := told
  constructor
  · rintro rfl path p cause leads offence
    obtain rfl := List.forall₂_nil_right_iff.1 each
    exact List.not_mem_nil ((offending path).2 ⟨p, cause, leads, offence⟩)
  · intro none
    cases paths with
    | nil => exact List.forall₂_nil_left_iff.1 each
    | cons path paths =>
      obtain ⟨p, cause, leads, offence⟩ := (offending path).1 List.mem_cons_self
      exact absurd offence (none path p cause leads)

/-- The check of a type stops exactly if something nested in it has no canonical name, with one
report and nothing besides. Otherwise it reports each nested type that takes parameters it may not,
once, the outer ones first and the parameters from left to right, and passes if there is none. -/
theorem check_reports (t : TypeExpr) :
    ((∃ f, t.check.result = .error f) ↔
        ∃ path p, t.at? path = some p ∧ p.head.canonical = none) ∧
      (∀ f, t.check.result = .error f → t.check.notes = [f.diagnostic]) ∧
      ∀ passed, t.check.result = .ok passed →
        t.ReportsOffences t.check.notes ∧
          (passed = true ↔ ∀ path p cause, t.at? path = some p → ¬ p.Offence cause) := by
  cases resolved : t.isFullyResolved with
  | true =>
    have told := arityNotes_reported resolved
    rw [check_of_resolved resolved]
    refine ⟨⟨?_, ?_⟩, ?_, ?_⟩
    · rintro ⟨f, stopped⟩
      cases stopped
    · rintro ⟨path, p, leads, unfound⟩
      obtain ⟨name, found⟩ := (isFullyResolved_iff_paths t).1 resolved path p leads
      rw [unfound] at found
      cases found
    · intro f stopped
      cases stopped
    · intro passed ended
      cases ended
      exact ⟨told, List.isEmpty_iff.trans told.eq_nil_iff⟩
  | false =>
    rw [check_of_unresolved resolved]
    refine ⟨⟨fun _ => ?_, fun _ => ⟨_, rfl⟩⟩, ?_, ?_⟩
    · have some : ¬ ∀ path p, t.at? path = some p → ∃ name, p.head.canonical = some name :=
        fun all => Bool.false_ne_true (resolved.symm.trans ((isFullyResolved_iff_paths t).2 all))
      push Not at some
      obtain ⟨path, p, leads, unfound⟩ := some
      exact ⟨path, p, leads, Option.eq_none_iff_forall_ne_some.2 unfound⟩
    · intro f stopped
      cases stopped
      rfl
    · intro passed ended
      cases ended

/-- `Map<List<int,char>,Letter<Map<int>>>`, with a name for the letter if it is known. -/
def crookedMap (letter : Option String) : TypeExpr :=
  let head (name : String) (canonical : Option String) : TypeHead :=
    { TypeHead.fresh .nowhere name false "" .empty with canonical }
  let plain (name : String) : TypeExpr := ⟨head name name, none⟩
  let inner : TypeExpr := ⟨head "Map" "Map", some [plain "int"]⟩
  ⟨head "Map" "Map",
    some [⟨head "List" "List", some [plain "int", plain "char"]⟩, ⟨head "Letter" letter, some [inner]⟩]⟩

theorem crookedMap_reported :
    ((crookedMap "post.Letter").check.result = .ok false ∧
      (crookedMap "post.Letter").check.notes.map Diagnostic.message =
        ["List cannot have type parameters more than one, but got 'List<int,char>'",
         "'post.Letter' is not a generic type, but got 'post.Letter<Map<int>>'",
         "Map must have 0 or 2 type parameters, but got 'Map<int>'"] ∧
      (crookedMap "post.Letter").ReportsOffences (crookedMap "post.Letter").check.notes) ∧
    ((∃ p, (crookedMap none).at? [1] = some p ∧ p.head.canonical = none) ∧
      ∃ f, (crookedMap none).check.result = .error f ∧
        (crookedMap none).check.notes = [f.diagnostic]) := by
  obtain ⟨-, -, reports⟩ := check_reports (crookedMap "post.Letter")
  obtain ⟨stops, once, -⟩ := check_reports (crookedMap none)
  have ended : (crookedMap "post.Letter").check.result = .ok false := by decide +kernel
  have unknown : ∃ p, (crookedMap none).at? [1] = some p ∧ p.head.canonical = none :=
    ⟨_, rfl, rfl⟩
  obtain ⟨p, leads, unfound⟩ := unknown
  obtain ⟨f, stopped⟩ := stops.2 ⟨[1], p, leads, unfound⟩
  exact ⟨⟨ended, by decide +kernel, (reports false ended).1⟩, ⟨p, leads, unfound⟩, f, stopped,
    once f stopped⟩

end IdlFrontEnd.TypeExpr
