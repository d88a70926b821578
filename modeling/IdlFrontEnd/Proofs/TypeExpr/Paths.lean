import IdlFrontEnd.Proofs.TypeExpr

/-!
# Paths into a type

A path leads to a type that is nested in another one: the positions to go down among the parameters,
from the outside. The lexicographic order of paths is the order of writing: a type comes before its
parameters, and a parameter with all that is nested in it before the next one. The parts of a type
are what its paths lead to, in this order.
-/
namespace IdlFrontEnd.TypeExpr

/-- The type that a path leads to. -/
def at? : List Nat → TypeExpr → Option TypeExpr
  | [], t => some t
  | i :: path, t => (t.params.getD [])[i]?.bind (at? path)

/-- Paths lead to all nested types and to nothing else. -/
theorem mem_parts_iff_at? {t p : TypeExpr} : p ∈ t.parts ↔ ∃ path, t.at? path = some p := by
  rw [mem_parts_iff]
  constructor
  · intro within
    induction within with
    | self => exact ⟨[], rfl⟩
    | param member _ ih =>
      obtain ⟨i, first⟩ := List.mem_iff_getElem?.1 member
      obtain ⟨path, rest⟩ := ih
      exact ⟨i :: path, by simp [at?, first, rest]⟩
  · rintro ⟨path, leads⟩
    induction path generalizing t with
    | nil =>
      cases leads
      exact .self
    | cons i path ih =>
      obtain ⟨q, first, rest⟩ := Option.bind_eq_some_iff.1 leads
      obtain ⟨h, ps⟩ := t
      cases ps with
      | none => cases first
      | some ps => exact .param (List.mem_of_getElem? first) (ih rest)

theorem at?_mapHeads (f : TypeHead → TypeHead) (path : List Nat) (t : TypeExpr) :
    (t.mapHeads f).at? path = (t.at? path).map (mapHeads f) := by
  induction path generalizing t with
  | nil => rfl
  | cons i path ih =>
    obtain ⟨h, ps⟩ := t
    cases ps with
    | none => simp [at?]
    | some ps =>
      cases first : ps[i]? with
      | none => simp [at?, first]
      | some p => simp [at?, first, ih]

theorem at?_resolve (find : String → Option String) (path : List Nat) (t : TypeExpr) :
    (t.resolve find).at? path = (t.at? path).map (resolve find) := by
  rw [resolve_eq_mapHeads, at?_mapHeads]

/-- A type is resolved if a name stands at the end of every path. -/
theorem isFullyResolved_iff_paths (t : TypeExpr) :
    t.isFullyResolved = true ↔
      ∀ path p, t.at? path = some p → ∃ name, p.head.canonical = some name := by
  unfold isFullyResolved
  rw [List.all_eq_true]
  constructor
  · intro all path p leads
    exact Option.isSome_iff_exists.1 (all p (mem_parts_iff_at?.2 ⟨path, leads⟩))
  · intro all p member
    obtain ⟨path, leads⟩ := mem_parts_iff_at?.1 member
    exact Option.isSome_iff_exists.2 (all path p leads)

/-! ## The paths in order -/

mutual
/-- All paths into the type. -/
def paths : TypeExpr → List (List Nat)
  | ⟨_, none⟩ => [[]]
  | ⟨_, some ps⟩ => [] :: pathsFrom 0 ps

/-- All paths into types that stand side by side, the first of them at position `i`. -/
def pathsFrom (i : Nat) : List TypeExpr → List (List Nat)
  | [] => []
  | p :: ps => (paths p).map (i :: ·) ++ pathsFrom (i + 1) ps
end

theorem mem_pathsFrom {i : Nat} {ps : List TypeExpr} {path : List Nat} :
    path ∈ pathsFrom i ps ↔
      ∃ j p rest, ps[j]? = some p ∧ rest ∈ p.paths ∧ path = (i + j) :: rest := by
  induction ps generalizing i with
  | nil => simp [pathsFrom]
  | cons p ps ih =>
    rw [pathsFrom, List.mem_append, List.mem_map, ih]
    constructor
    · rintro (⟨rest, inside, rfl⟩ | ⟨j, q, rest, there, inside, rfl⟩)
      · exact ⟨0, p, rest, rfl, inside, rfl⟩
      · exact ⟨j + 1, q, rest, there, inside, by rw [Nat.add_assoc, Nat.add_comm 1 j]⟩
    · rintro ⟨j, q, rest, there, inside, rfl⟩
      cases j with
      | zero =>
        cases there
        exact .inl ⟨rest, inside, rfl⟩
      | succ j => exact .inr ⟨j, q, rest, there, inside, by rw [Nat.add_assoc, Nat.add_comm 1 j]⟩

theorem mem_paths_iff {t : TypeExpr} {path : List Nat} :
    path ∈ t.paths ↔ ∃ p, t.at? path = some p := by
  induction path generalizing t with
  | nil =>
    obtain ⟨h, ps⟩ := t
    cases ps <;> simp [paths, at?]
  | cons i path ih =>
    obtain ⟨h, ps⟩ := t
    cases ps with
    | none => simp [paths, at?]
    | some ps =>
      simp only [paths, at?, List.mem_cons, mem_pathsFrom, Option.getD_some,
        Option.bind_eq_some_iff, Nat.zero_add, List.cons.injEq, reduceCtorEq, false_or]
      constructor
      · rintro ⟨j, q, rest, there, inside, rfl, rfl⟩
        obtain ⟨p, leads⟩ := ih.1 inside
        exact ⟨p, q, there, leads⟩
      · rintro ⟨p, q, there, leads⟩
        exact ⟨i, q, path, there, ih.2 ⟨p, leads⟩, rfl, rfl⟩

theorem paths_ascending (t : TypeExpr) : t.paths.Pairwise (· < ·) := by
  have beside (ps : List TypeExpr) (each : ∀ p ∈ ps, p.paths.Pairwise (· < ·)) (i : Nat) :
      (pathsFrom i ps).Pairwise (· < ·) := by
    induction ps generalizing i with
    | nil => exact .nil
    | cons p ps ih =>
      obtain ⟨first, others⟩ := List.forall_mem_cons.1 each
      rw [pathsFrom, List.pairwise_append, List.pairwise_map]
      refine ⟨first.imp fun less => List.cons_lt_cons_iff.2 (.inr ⟨rfl, less⟩),
        ih others (i + 1), ?_⟩
      intro path own later behind
      obtain ⟨rest, -, rfl⟩ := List.mem_map.1 own
      obtain ⟨j, q, rest', -, -, rfl⟩ := mem_pathsFrom.1 behind
      exact List.cons_lt_cons_iff.2 (.inl (by omega))
  induction t using TypeExpr.induction with
  | bare h => simp [paths]
  | params h ps ih =>
    rw [paths, List.pairwise_cons]
    refine ⟨fun path below => ?_, beside ps ih 0⟩
    obtain ⟨j, q, rest, -, -, rfl⟩ := mem_pathsFrom.1 below
    exact List.nil_lt_cons _ _

/-- The parts are listed in the order of the paths. -/
theorem map_at?_paths (t : TypeExpr) : t.paths.map (at? · t) = t.parts.map some := by
  induction t using TypeExpr.induction with
  | bare h => simp [paths, at?]
  | params h ps ih =>
    -- what stands behind the first `before` of the parameters
    have beside (before behind : List TypeExpr) (all : ps = before ++ behind) :
        (pathsFrom before.length behind).map (at? · ⟨h, some ps⟩) =
          (behind.flatMap parts).map some := by
      induction behind generalizing before with
      | nil => simp [pathsFrom]
      | cons p behind others =>
        have own : ps[before.length]? = some p := by simp [all]
        have leads : (fun path => at? (before.length :: path) ⟨h, some ps⟩) = (at? · p) := by
          funext path
          simp [at?, own]
        have rest := others (before ++ [p]) (by simp [all])
        rw [List.length_append, List.length_singleton] at rest
        rw [pathsFrom, List.map_append, List.map_map, Function.comp_def, leads,
          ih p (List.mem_of_getElem? own), rest, List.flatMap_cons, List.map_append]
    have below := beside [] ps rfl
    rw [List.length_nil] at below
    rw [paths, List.map_cons, below, parts_params, List.map_cons]
    rfl

end IdlFrontEnd.TypeExpr
