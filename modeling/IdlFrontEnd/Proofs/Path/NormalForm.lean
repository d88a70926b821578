import IdlFrontEnd.Proofs.Path
import IdlFrontEnd.Proofs.Text.Parts

/-!
# Normal forms of paths

The normal form of a path is a row of names, perhaps below the root. Written as a path again it has
just these components, so it is its own normal form: nothing is left in it that could be dropped or
taken back. Two paths are therefore written in the same normal way only if their normal forms are the
same.
-/
namespace IdlFrontEnd.Path

/-- A name that is a component of its own between two slashes; unlike a segment it may start with a
dot. -/
structure IsEntry (name : String) : Prop where
  own : inner? name.toList = some (.name name)
  whole : '/' ∉ name.toList

theorem IsEntry.relative {name : String} (entry : IsEntry name) : isAbsolute name = false := by
  have whole := entry.whole
  unfold isAbsolute
  cases chars : name.toList with
  | nil => rfl
  | cons c cs =>
    have slash : c ≠ '/' := by
      rintro rfl
      exact whole (by simp [chars])
    simp [isAbsoluteText, slash]

theorem IsEntry.components {name : String} (entry : IsEntry name) :
    components name = [.name name] ∧
      components name = (name.toList.splitOn '/').filterMap inner? := by
  have here : name.toList ≠ ['.'] := by
    intro same
    have own := entry.own
    rw [same] at own
    cases own
  unfold Path.components
  rw [entry.relative, List.splitOn_eq_singleton entry.whole]
  simp [entry.own, here]

/-- What follows the start of a path goes up or enters. -/
theorem up_or_entry {path : String} {c : Component}
    (member : c ∈ (path.toList.splitOn '/').filterMap inner?) :
    c = .up ∨ ∃ name, c = .name name ∧ IsEntry name := by
  obtain ⟨segment, cut, own⟩ := List.mem_filterMap.1 member
  have whole : '/' ∉ segment := fun slash => by simpa using Text.apart_of_mem_splitOnP cut slash
  by_cases up : segment = ['.', '.']
  · subst up
    exact .inl (Option.some.inj own).symm
  · right
    have spelled : inner? segment = some (.name (String.ofList segment)) := by
      unfold inner? at own ⊢
      split at own
      · cases own
      next some => rw [if_neg some, if_neg up]
    refine ⟨String.ofList segment, Option.some.inj (own.symm.trans spelled), ?_, ?_⟩
    · rw [String.toList_ofList, spelled]
    · rwa [String.toList_ofList]

/-- One name behind the other, perhaps below the root. -/
inductive IsNormal : List Component → Prop
  | relative {names : List String} (entries : ∀ name ∈ names, IsEntry name) :
      IsNormal (names.map .name)
  | absolute {names : List String} (entries : ∀ name ∈ names, IsEntry name) :
      IsNormal (.root :: names.map .name)

namespace IsNormal

variable {parts : List Component}

theorem dropLast (normal : IsNormal parts) : IsNormal parts.dropLast := by
  cases normal with
  | @relative names entries =>
    rw [← List.map_dropLast]
    exact .relative fun name member => entries name (List.dropLast_subset _ member)
  | @absolute names entries =>
    cases names with
    | nil => exact @IsNormal.relative [] entries
    | cons first others =>
      rw [List.map_cons, List.dropLast_cons_cons, ← List.map_cons, ← List.map_dropLast]
      exact .absolute fun name member => entries name (List.dropLast_subset _ member)

theorem concat (normal : IsNormal parts) {name : String} (entry : IsEntry name) :
    IsNormal (parts ++ [.name name]) := by
  have extend {names : List String} (entries : ∀ name ∈ names, IsEntry name) :
      ∀ other ∈ names ++ [name], IsEntry other := by
    intro other member
    rcases List.mem_append.1 member with earlier | own
    · exact entries other earlier
    · rwa [List.mem_singleton.1 own]
  cases normal with
  | relative entries => simpa using IsNormal.relative (extend entries)
  | absolute entries => simpa using IsNormal.absolute (extend entries)

/-- No step of normalizing leaves the normal forms. -/
theorem foldl_step (normal : IsNormal parts) {inside : List Component}
    (each : ∀ c ∈ inside, c = .up ∨ ∃ name, c = .name name ∧ IsEntry name) :
    IsNormal (inside.foldl normalForm.step parts) := by
  induction inside generalizing parts with
  | nil => exact normal
  | cons c inside ih =>
    obtain ⟨own, others⟩ := List.forall_mem_cons.1 each
    rcases own with rfl | ⟨name, rfl, entry⟩
    · exact ih normal.dropLast others
    · exact ih (normal.concat entry) others

/-- A normal form is taken over as it is. -/
theorem foldl_step_self (normal : IsNormal parts) : parts.foldl normalForm.step [] = parts := by
  have append (names : List String) (kept : List Component) :
      (names.map Component.name).foldl normalForm.step kept = kept ++ names.map .name := by
    induction names generalizing kept with
    | nil => simp
    | cons name names ih =>
      have own : normalForm.step kept (.name name) = kept ++ [.name name] := rfl
      rw [List.map_cons, List.foldl_cons, own, ih, List.append_assoc, List.singleton_append]
  cases normal with
  | relative entries => exact append _ []
  | absolute entries => exact append _ [.root]

end IsNormal

theorem isNormal_normalForm (path : String) : IsNormal (normalForm path) := by
  have none : IsNormal [] := @IsNormal.relative [] (by simp)
  have root : IsNormal [.root] := @IsNormal.absolute [] (by simp)
  have inside {parts : List Component} (normal : IsNormal parts) :
      IsNormal (((path.toList.splitOn '/').filterMap inner?).foldl normalForm.step parts) :=
    normal.foldl_step fun _ => up_or_entry
  unfold normalForm components
  dsimp only
  split
  · exact inside root
  split
  · exact inside none
  · exact inside none

/-- Names that are joined one after the other come behind the components of the base. -/
theorem components_foldl_join {names : List String} (entries : ∀ name ∈ names, IsEntry name)
    (base : String) : components (names.foldl join base) = components base ++ names.map .name := by
  induction names generalizing base with
  | nil => simp
  | cons name names ih =>
    obtain ⟨own, others⟩ := List.forall_mem_cons.1 entries
    rw [List.foldl_cons, ih others,
      components_join_relative own.relative own.components.2, own.components.1, List.map_cons,
      List.append_assoc, List.singleton_append]

theorem components_ofComponents {parts : List Component} (normal : IsNormal parts) :
    components (ofComponents parts) = parts := by
  have texts (names : List String) : (names.map Component.name).map Component.text = names := by
    simp [Function.comp_def, Component.text]
  unfold ofComponents joinAll
  cases normal with
  | relative entries =>
    rw [texts, components_foldl_join entries]
    rfl
  | absolute entries =>
    rw [List.map_cons, texts, List.foldl_cons, components_foldl_join entries]
    rfl

/-- The normal way to write a path has the normal form of that path. -/
theorem normalForm_normalize (path : String) : normalForm (normalize path) = normalForm path := by
  have normal := isNormal_normalForm path
  calc normalForm (normalize path)
      = (components (ofComponents (normalForm path))).foldl normalForm.step [] := rfl
    _ = (normalForm path).foldl normalForm.step [] := by rw [components_ofComponents normal]
    _ = normalForm path := normal.foldl_step_self

theorem normalize_normalize (path : String) : normalize (normalize path) = normalize path :=
  congrArg ofComponents (normalForm_normalize path)

theorem normalize_eq_iff {path other : String} :
    normalize path = normalize other ↔ normalForm path = normalForm other := by
  constructor
  · intro same
    rw [← normalForm_normalize path, same, normalForm_normalize]
  · exact congrArg ofComponents

end IdlFrontEnd.Path
