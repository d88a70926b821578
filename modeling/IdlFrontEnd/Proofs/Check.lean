import IdlFrontEnd.Check.Constants
import IdlFrontEnd.Proofs.Build
import IdlFrontEnd.Proofs.Check.MethodNumbers
import IdlFrontEnd.Proofs.Check.NestedTypes

/-!
# Checks of resolved declarations

A check is plain if it does not stop, reports errors only and fails exactly if it reports something.
Checks that are put together from plain ones are plain. A type without a canonical name would stop
its check, and a constant with an unreadable value would fail in silence; a resolved declaration has
neither, so all of its checks are plain.
-/
namespace IdlFrontEnd

/-- The verdict is that of its own reports, and these are errors. -/
def Verdict.Plain (v : Verdict) : Prop := ∃ notes, v = .ofNotes notes ∧ AllErrors notes

namespace Verdict.Plain

theorem ofNotes {notes : List Diagnostic} (errors : AllErrors notes) :
    Plain (.ofNotes notes) := ⟨notes, rfl, errors⟩

theorem pass : Plain .pass := ⟨[], rfl, .nil⟩

theorem andThen {v w : Verdict} (first : v.Plain) (second : w.Plain) : (v.andThen w).Plain := by
  obtain ⟨notes, rfl, errors⟩ := first
  obtain ⟨more, rfl, others⟩ := second
  exact ⟨notes ++ more, Verdict.ofNotes_andThen notes more, errors.append others⟩

theorem ifPassed {v w : Verdict} (first : v.Plain) (second : w.Plain) : (v.ifPassed w).Plain := by
  obtain ⟨notes, rfl, errors⟩ := first
  cases notes with
  | nil => exact andThen (ofNotes errors) second
  | cons note notes => exact ofNotes errors

theorem all {vs : List Verdict} (each : ∀ v ∈ vs, v.Plain) : (Verdict.all vs).Plain := by
  induction vs with
  | nil => exact pass
  | cons v vs ih =>
    have others := ih fun w member => each w (List.mem_cons_of_mem v member)
    exact andThen (each v List.mem_cons_self) others

end Verdict.Plain

open Verdict

/-- A report that is only made under a condition. -/
theorem plain_if {c : Prop} [Decidable c] (location : Location) (cause : Cause) :
    Plain (.ofNotes (if c then [.atPlace location cause] else [])) := by
  split
  · exact .ofNotes (.single rfl)
  · exact .ofNotes .nil

/-! ## Types -/

theorem TypeExpr.check_plain {t : TypeExpr} (resolved : t.isFullyResolved = true) :
    t.check.Plain := by
  rw [check_of_resolved resolved]
  refine .ofNotes ?_
  intro n member
  obtain ⟨p, -, found⟩ := List.mem_filterMap.1 member
  obtain ⟨cause, -, rfl⟩ := Option.map_eq_some_iff.1 found
  rfl

theorem Argument.check_plain {a : Argument} (resolved : a.type.isFullyResolved = true)
    (g : Registry) (index : Nat) : (a.check g index).Plain := by
  refine (TypeExpr.check_plain resolved).ifPassed (.ofNotes ?_)
  cases a.fault? g with
  | none => exact .nil
  | some fault => exact .single rfl

namespace Method

theorem checkName_plain (m : Method) (before : List Method) : (m.checkName before).Plain := by
  unfold checkName
  split
  · exact .ofNotes (.cons rfl (.single rfl))
  · exact .pass

theorem checkArguments_plain {m : Method} (resolved : ∀ t ∈ m.types, t.isFullyResolved = true)
    (g : Registry) (oneway : Bool) : (m.checkArguments g oneway).Plain := by
  refine .all ?_
  intro v member
  obtain ⟨⟨a, i⟩, inside, rfl⟩ := List.mem_map.1 member
  have known : a ∈ m.arguments := List.fst_mem_of_mem_zipIdx inside
  have own := resolved a.type (List.mem_cons_of_mem _ (List.mem_map.2 ⟨a, known, rfl⟩))
  exact (Argument.check_plain own g (i + 1)).andThen (plain_if _ _)

theorem check_plain {m : Method} (resolved : ∀ t ∈ m.types, t.isFullyResolved = true)
    (g : Registry) (oneway : Bool) (before : List Method) : (m.check g oneway before).Plain := by
  refine .all ?_
  intro v member
  simp only [List.mem_cons, List.not_mem_nil, or_false] at member
  rcases member with rfl | rfl | rfl | rfl
  · exact TypeExpr.check_plain (resolved _ List.mem_cons_self)
  · exact plain_if _ _
  · exact checkArguments_plain resolved g _
  · exact checkName_plain m before

theorem checkAll_plain {methods : List Method}
    (resolved : ∀ m ∈ methods, ∀ t ∈ m.types, t.isFullyResolved = true) (g : Registry)
    (oneway : Bool) (before : List Method) : (checkAll g oneway before methods).Plain := by
  induction methods generalizing before with
  | nil => exact .pass
  | cons m ms ih =>
    have others := ih fun n member => resolved n (List.mem_cons_of_mem m member)
    exact (check_plain (resolved m List.mem_cons_self) g oneway before).andThen (others _)

end Method

theorem Declaration.checkTypes_plain {d : Declaration}
    (resolved : ∀ t ∈ d.types, t.isFullyResolved = true) (g : Registry) :
    (d.checkTypes g).Plain := by
  obtain ⟨header, body⟩ := d
  cases body with
  | parcelable name cppHeader => exact .pass
  | structured name fields =>
    refine .all ?_
    intro v member
    obtain ⟨f, inside, rfl⟩ := List.mem_map.1 member
    exact TypeExpr.check_plain (resolved f.type (List.mem_map.2 ⟨f, inside, rfl⟩))
  | interface oneway methods constants =>
    refine (plain_if _ _).andThen (Method.checkAll_plain ?_ g oneway [])
    intro m inside t member
    exact resolved t (List.mem_append_left _ (List.mem_flatMap.2 ⟨m, inside, member⟩))

/-! ## Constants -/

namespace Constant

theorem checkValue_plain {c : Constant} (valued : c.value.value ≠ .invalid) :
    c.checkValue.Plain := by
  unfold checkValue
  dsimp only
  rw [if_neg valued]
  split
  · exact .ofNotes (.single rfl)
  · split
    · exact .ofNotes (.single rfl)
    · exact .pass

theorem checkAll_plain {constants : List Constant}
    (resolved : ∀ c ∈ constants, c.type.isFullyResolved = true)
    (valued : ∀ c ∈ constants, c.value.value ≠ .invalid) (before : List Constant) :
    (checkAll before constants).Plain := by
  induction constants generalizing before with
  | nil => exact .pass
  | cons c cs ih =>
    have others := ih (fun k member => resolved k (List.mem_cons_of_mem c member))
      fun k member => valued k (List.mem_cons_of_mem c member)
    have own := (TypeExpr.check_plain (resolved c List.mem_cons_self)).ifPassed
      (checkValue_plain (valued c List.mem_cons_self))
    exact ((plain_if _ _).andThen own).andThen (others _)

end Constant

theorem Declaration.Resolved.checkConstants_plain {g : Registry} {d : Declaration}
    (resolved : d.Resolved g) : d.checkConstants.Plain := by
  obtain ⟨header, body⟩ := d
  cases body with
  | parcelable name cppHeader => exact .pass
  | structured name fields => exact .pass
  | interface oneway methods constants =>
    refine Constant.checkAll_plain ?_ resolved.valued []
    intro c member
    exact resolved.isFullyResolved (List.mem_append_right _ (List.mem_map.2 ⟨c, member, rfl⟩))

/-! ## Numbers -/

theorem Declaration.methods_numbered (d : Declaration) :
    (d.withMethods (Method.numbered d.methods)).methods = Method.numbered d.methods := by
  obtain ⟨header, body⟩ := d
  cases body <;> rfl

theorem Declaration.Resolved.withMethods {g : Registry} {d : Declaration} (resolved : d.Resolved g)
    {methods : List Method} (same : methods.map Method.types = d.methods.map Method.types) :
    (d.withMethods methods).Resolved g := by
  constructor
  · rw [Declaration.withMethods_types d same]
    exact resolved.settled
  · rw [Declaration.withMethods_constants]
    exact resolved.valued

end IdlFrontEnd
