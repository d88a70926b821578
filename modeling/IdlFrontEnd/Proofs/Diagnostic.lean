import IdlFrontEnd.Diagnostic

/-!
# Errors and faults

A report of an error says that the input is wrong, one of a fault that the program is. What follows
is about lists of reports with no fault among them, and about those of mistakes that can be seen in
one text alone.
-/
namespace IdlFrontEnd

/-- There is no fault among these reports. -/
def AllErrors (notes : List Diagnostic) : Prop := ∀ n ∈ notes, n.severity = .error

namespace AllErrors

theorem nil : AllErrors [] := by
  intro n member
  cases member

theorem append {notes more : List Diagnostic} (first : AllErrors notes) (second : AllErrors more) :
    AllErrors (notes ++ more) := by
  intro n member
  rcases List.mem_append.1 member with member | member
  · exact first n member
  · exact second n member

theorem cons {n : Diagnostic} {notes : List Diagnostic} (first : n.severity = .error)
    (others : AllErrors notes) : AllErrors (n :: notes) := by
  intro m member
  rcases List.mem_cons.1 member with rfl | member
  · exact first
  · exact others m member

theorem single {n : Diagnostic} (only : n.severity = .error) : AllErrors [n] := .cons only .nil

/-- One report for each element, and each of them an error. -/
theorem map {α : Type} {f : α → Diagnostic} (each : ∀ a, (f a).severity = .error) (as : List α) :
    AllErrors (as.map f) := by
  intro n member
  obtain ⟨a, -, rfl⟩ := List.mem_map.1 member
  exact each a

theorem flatMap {α : Type} {f : α → List Diagnostic} (each : ∀ a, AllErrors (f a))
    (as : List α) : AllErrors (as.flatMap f) := by
  intro n member
  obtain ⟨a, -, member⟩ := List.mem_flatMap.1 member
  exact each a n member

theorem not_fatal {notes : List Diagnostic} (errors : AllErrors notes) :
    ∀ n ∈ notes, n.severity ≠ .fatal := by
  intro n member
  rw [errors n member]
  decide

end AllErrors

/-- The cause is a mistake in a text, whatever is known of other files and of types. -/
def Cause.isSyntactic : Cause → Bool
  | .openComment | .openString | .strayCharacter _ | .expected .. | .badMethodNumber _
  | .unannotationNamed _ | .badInteger _ | .badStringCharacter .. => true
  | _ => false

/-- All these reports are of mistakes in a text. -/
def AllMistakes (notes : List Diagnostic) : Prop :=
  ∀ n ∈ notes, n.severity = .error ∧ n.cause.isSyntactic = true

theorem AllMistakes.nil : AllMistakes [] := List.forall_mem_nil _

theorem AllMistakes.errors {notes : List Diagnostic} (mistakes : AllMistakes notes) :
    AllErrors notes :=
  fun n member => (mistakes n member).1

theorem AllMistakes.append {notes more : List Diagnostic} (first : AllMistakes notes)
    (second : AllMistakes more) : AllMistakes (notes ++ more) :=
  List.forall_mem_append.2 ⟨first, second⟩

theorem AllMistakes.single {n : Diagnostic} (error : n.severity = .error)
    (cause : n.cause.isSyntactic = true) : AllMistakes [n] :=
  List.forall_mem_singleton.2 ⟨error, cause⟩

end IdlFrontEnd
