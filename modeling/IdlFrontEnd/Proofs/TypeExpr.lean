import IdlFrontEnd.TypeExpr

/-!
# Types and what is nested in them

A type is nested in another if it is that type or nested in one of its parameters. The parts that
the library walks over are exactly the nested types, and resolving goes through all of them: one
that cannot be resolved does not keep those behind it from it.
-/
namespace IdlFrontEnd.TypeExpr

/-- The first type is the second one or stands somewhere in its parameters. -/
inductive Within : TypeExpr → TypeExpr → Prop
  | self {t : TypeExpr} : Within t t
  | param {h : TypeHead} {ps : List TypeExpr} {p q : TypeExpr} (member : p ∈ ps)
      (inner : Within q p) : Within q ⟨h, some ps⟩

/-- Induction over a type and its parameters. -/
theorem induction {P : TypeExpr → Prop} (bare : ∀ h, P ⟨h, none⟩)
    (params : ∀ h ps, (∀ p ∈ ps, P p) → P ⟨h, some ps⟩) (t : TypeExpr) : P t := by
  refine @TypeExpr.rec P (fun o => ∀ ps, o = some ps → ∀ p ∈ ps, P p) (fun ps => ∀ p ∈ ps, P p)
    ?_ ?_ ?_ ?_ ?_ t
  · intro h o each
    cases o with
    | none => exact bare h
    | some ps => exact params h ps (each ps rfl)
  · intro ps none
    cases none
  · intro ps each qs same
    cases same
    exact each
  · intro p member
    cases member
  · intro p ps first others q member
    rcases List.mem_cons.1 member with rfl | member
    · exact first
    · exact others q member

/-- The depth that is counted along does not change which parts there are. -/
theorem partsOfAll_snd {ps : List TypeExpr}
    (each : ∀ p ∈ ps, ∀ depth, (partsFrom depth p).map Prod.snd = p.parts) (depth : Nat) :
    (partsOfAll depth ps).map Prod.snd = ps.flatMap parts := by
  induction ps with
  | nil => simp [partsOfAll]
  | cons p ps ih =>
    have first := each p List.mem_cons_self depth
    have others := ih fun q member => each q (List.mem_cons_of_mem p member)
    simp [partsOfAll, first, others]

theorem partsFrom_snd (t : TypeExpr) (depth : Nat) :
    (partsFrom depth t).map Prod.snd = t.parts := by
  induction t using TypeExpr.induction generalizing depth with
  | bare h =>
    unfold parts
    simp [partsFrom]
  | params h ps ih =>
    unfold parts
    simp only [partsFrom, List.map_cons, partsOfAll_snd ih]

@[simp] theorem parts_bare (h : TypeHead) : parts ⟨h, none⟩ = [⟨h, none⟩] := by
  unfold parts
  simp [partsFrom]

@[simp] theorem parts_params (h : TypeHead) (ps : List TypeExpr) :
    parts ⟨h, some ps⟩ = ⟨h, some ps⟩ :: ps.flatMap parts := by
  have all := partsOfAll_snd (fun p (_ : p ∈ ps) => partsFrom_snd p) 1
  rw [← all]
  rfl

theorem mem_parts_iff {q t : TypeExpr} : q ∈ t.parts ↔ Within q t := by
  constructor
  · induction t using TypeExpr.induction with
    | bare h =>
      intro member
      rw [parts_bare, List.mem_singleton] at member
      rw [member]
      exact .self
    | params h ps ih =>
      intro member
      rw [parts_params] at member
      rcases List.mem_cons.1 member with rfl | member
      · exact .self
      · obtain ⟨p, known, member⟩ := List.mem_flatMap.1 member
        exact .param known (ih p known member)
  · intro within
    induction within with
    | @self t =>
      obtain ⟨h, ps⟩ := t
      cases ps <;> simp
    | param member _ ih =>
      rw [parts_params]
      exact List.mem_cons_of_mem _ (List.mem_flatMap.2 ⟨_, member, ih⟩)

theorem texts_eq_map (ps : List TypeExpr) : texts ps = ps.map text := by
  induction ps with
  | nil => rw [texts, List.map_nil]
  | cons p ps ih => rw [texts, ih, List.map_cons]

/-! ## Other heads -/

mutual
/-- Replaces the heads of the type and of everything nested in it. -/
def mapHeads (f : TypeHead → TypeHead) : TypeExpr → TypeExpr
  | ⟨h, none⟩ => ⟨f h, none⟩
  | ⟨h, some ps⟩ => ⟨f h, some (mapHeadsAll f ps)⟩

def mapHeadsAll (f : TypeHead → TypeHead) : List TypeExpr → List TypeExpr
  | [] => []
  | p :: ps => mapHeads f p :: mapHeadsAll f ps
end

section
variable (f : TypeHead → TypeHead)

theorem mapHeadsAll_eq_map (ps : List TypeExpr) : mapHeadsAll f ps = ps.map (mapHeads f) := by
  induction ps with
  | nil => rw [mapHeadsAll, List.map_nil]
  | cons p ps ih => rw [mapHeadsAll, ih, List.map_cons]

@[simp] theorem mapHeads_none (h : TypeHead) : mapHeads f ⟨h, none⟩ = ⟨f h, none⟩ := by
  rw [mapHeads]

@[simp] theorem mapHeads_some (h : TypeHead) (ps : List TypeExpr) :
    mapHeads f ⟨h, some ps⟩ = ⟨f h, some (ps.map (mapHeads f))⟩ := by
  rw [mapHeads, mapHeadsAll_eq_map]

theorem mapHeads_eq (h : TypeHead) (ps : Option (List TypeExpr)) :
    mapHeads f ⟨h, ps⟩ = ⟨f h, ps.map (List.map (mapHeads f))⟩ := by
  cases ps <;> simp

theorem mapHeads_mapHeads (g : TypeHead → TypeHead) (t : TypeExpr) :
    (t.mapHeads f).mapHeads g = t.mapHeads (g ∘ f) := by
  induction t using TypeExpr.induction with
  | bare h => simp
  | params h ps ih => simpa using ih

theorem head_mapHeads (t : TypeExpr) : (t.mapHeads f).head = f t.head := by
  obtain ⟨h, ps⟩ := t
  rw [mapHeads_eq]

theorem params_mapHeads (t : TypeExpr) :
    (t.mapHeads f).params = t.params.map (List.map (mapHeads f)) := by
  obtain ⟨h, ps⟩ := t
  rw [mapHeads_eq]

/-- The nested types of the new type are those of the old one with new heads. -/
theorem parts_mapHeads (t : TypeExpr) : (t.mapHeads f).parts = t.parts.map (mapHeads f) := by
  induction t using TypeExpr.induction with
  | bare h => simp
  | params h ps ih =>
    have each : (ps.map (mapHeads f)).flatMap parts = (ps.flatMap parts).map (mapHeads f) := by
      rw [List.flatMap_map, List.map_flatMap, List.flatMap_def, List.flatMap_def]
      exact congrArg List.flatten (List.map_congr_left ih)
    simp only [mapHeads_some, parts_params, List.map_cons, each]

end

/-! ## Resolving -/

/-- A name is never found empty. -/
def Proper (find : String → Option String) : Prop :=
  ∀ written name, find written = some name → name ≠ ""

/-- A head without a canonical name gets what is found for it, and nothing else about it changes. -/
theorem resolve_head {find : String → Option String} (proper : Proper find) (h : TypeHead) :
    h.resolve find = { h with canonical := h.canonical.or (find h.written) } := by
  obtain ⟨location, written, canonical, isArray, comments, annotations, attachment⟩ := h
  cases canonical with
  | some name => rfl
  | none =>
    cases found : find written with
    | none => simp [TypeHead.resolve, found]
    | some name => simp [TypeHead.resolve, found, proper written name found]

/-- To resolve is to resolve every head. -/
theorem resolve_eq_mapHeads (find : String → Option String) :
    resolve find = mapHeads (TypeHead.resolve find) := by
  have all (ps : List TypeExpr)
      (each : ∀ p ∈ ps, p.resolve find = p.mapHeads (TypeHead.resolve find)) :
      resolveAll find ps = ps.map (mapHeads (TypeHead.resolve find)) := by
    induction ps with
    | nil => simp [resolveAll]
    | cons p ps ih => simp_all [resolveAll]
  funext t
  induction t using TypeExpr.induction with
  | bare h => simp [resolve]
  | params h ps ih => simp [resolve, all ps ih]

/-- Resolving reaches each part and adds none. -/
theorem parts_resolve (find : String → Option String) (t : TypeExpr) :
    (t.resolve find).parts = t.parts.map (resolve find) := by
  rw [resolve_eq_mapHeads, parts_mapHeads]

theorem head_resolve (find : String → Option String) (t : TypeExpr) :
    (t.resolve find).head = t.head.resolve find := by
  rw [resolve_eq_mapHeads, head_mapHeads]

theorem params_resolve (find : String → Option String) (t : TypeExpr) :
    (t.resolve find).params = t.params.map (List.map (resolve find)) := by
  rw [resolve_eq_mapHeads, params_mapHeads]

/-- No part has a canonical name yet. -/
def Unfound (t : TypeExpr) : Prop := ∀ p ∈ t.parts, p.head.canonical = none

/-- Every part has a canonical name, and one that `known` admits. -/
def Settled (known : String → Prop) (t : TypeExpr) : Prop :=
  ∀ p ∈ t.parts, ∃ name, p.head.canonical = some name ∧ known name

theorem Settled.isFullyResolved {known : String → Prop} {t : TypeExpr} (h : t.Settled known) :
    t.isFullyResolved = true := by
  unfold TypeExpr.isFullyResolved
  rw [List.all_eq_true]
  intro p member
  obtain ⟨name, found, -⟩ := h p member
  simp [isResolved, found]

/-- What is found for a type that had no canonical names is what `find` gives. -/
theorem settled_resolve {known : String → Prop} {find : String → Option String} {t : TypeExpr}
    (unfound : t.Unfound) (finds : ∀ written name, find written = some name → known name)
    (full : (t.resolve find).isFullyResolved = true) : (t.resolve find).Settled known := by
  intro p member
  have resolved := List.all_eq_true.1 full p member
  rw [parts_resolve] at member
  obtain ⟨q, inside, rfl⟩ := List.mem_map.1 member
  obtain ⟨name, found⟩ := Option.isSome_iff_exists.1 resolved
  refine ⟨name, found, ?_⟩
  rw [head_resolve] at found
  simp only [TypeHead.resolve, unfound q inside, Option.filter_eq_some_iff] at found
  exact finds _ name found.1

/-! ## Questions about a whole type

Each of these is answered for a type by its own head and the answers for its parameters. -/

theorem parts_eq (h : TypeHead) (ps : Option (List TypeExpr)) :
    parts ⟨h, ps⟩ = ⟨h, ps⟩ :: (ps.getD []).flatMap parts := by
  cases ps <;> simp

theorem isFullyResolved_eq (h : TypeHead) (ps : Option (List TypeExpr)) :
    isFullyResolved ⟨h, ps⟩ = (h.canonical.isSome && (ps.getD []).all isFullyResolved) := by
  unfold isFullyResolved
  rw [parts_eq, List.all_cons, List.all_flatMap]
  rfl

theorem isKnown_eq (find : String → Option String) (h : TypeHead)
    (ps : Option (List TypeExpr)) :
    isKnown find ⟨h, ps⟩ =
      ((h.canonical.isSome || (find h.written).isSome) && (ps.getD []).all (isKnown find)) := by
  unfold isKnown
  rw [parts_eq, List.all_cons, List.all_flatMap]
  rfl

theorem unresolvedParts_eq (h : TypeHead) (ps : Option (List TypeExpr)) :
    unresolvedParts ⟨h, ps⟩ =
      (if h.canonical.isSome then [] else [⟨h, ps⟩]) ++ (ps.getD []).flatMap unresolvedParts := by
  unfold unresolvedParts
  rw [parts_eq, List.filter_cons, List.filter_flatMap]
  cases found : h.canonical <;> simp [isResolved, found]

/-- What is known is what is resolved afterwards, parameter by parameter. -/
theorem isKnown_eq_isFullyResolved {find : String → Option String} (proper : Proper find)
    (t : TypeExpr) : t.isKnown find = (t.resolve find).isFullyResolved := by
  have own (h : TypeHead) :
      (h.resolve find).canonical.isSome = (h.canonical.isSome || (find h.written).isSome) := by
    rw [resolve_head proper, Option.isSome_or]
  induction t using TypeExpr.induction with
  | bare h =>
    rw [isKnown_eq, resolve, isFullyResolved_eq, own]
    rfl
  | params h ps ih =>
    rw [isKnown_eq, resolve_eq_mapHeads, mapHeads_some, isFullyResolved_eq, own,
      ← resolve_eq_mapHeads, Option.getD_some, Option.getD_some, List.all_map]
    congr 1
    rw [Bool.eq_iff_iff, List.all_eq_true, List.all_eq_true]
    exact forall₂_congr fun p member => by rw [ih p member]; rfl

theorem unresolvedParts_eq_nil_iff (t : TypeExpr) :
    t.unresolvedParts = [] ↔ t.isFullyResolved = true := by
  induction t using TypeExpr.induction with
  | bare h => cases found : h.canonical <;> simp [unresolvedParts_eq, isFullyResolved_eq, found]
  | params h ps ih =>
    rw [unresolvedParts_eq, isFullyResolved_eq, List.append_eq_nil_iff, Bool.and_eq_true]
    refine and_congr (by cases h.canonical <;> simp) ?_
    rw [Option.getD_some, List.flatMap_eq_nil_iff, List.all_eq_true]
    exact forall₂_congr ih

end IdlFrontEnd.TypeExpr
