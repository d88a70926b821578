import IdlFrontEnd.Proofs.Unit.Load
import IdlFrontEnd.Unit.Export

/-!
# Exports of resolved units

The export of a unit fails only at a type without a canonical name. A resolved declaration has none,
at any depth, and of what lies below an import nothing but names is exported.
-/
namespace IdlFrontEnd.Export

/-- A list is exported if each of its elements is. -/
theorem mapM_ok {α β : Type} {f : α → Except Fatal β} {as : List α}
    (each : ∀ a ∈ as, ∃ b, f a = .ok b) : ∃ bs, as.mapM f = .ok bs := by
  induction as with
  | nil => exact ⟨[], rfl⟩
  | cons a as ih =>
    obtain ⟨b, first⟩ := each a List.mem_cons_self
    obtain ⟨bs, others⟩ := ih fun x member => each x (List.mem_cons_of_mem a member)
    refine ⟨b :: bs, ?_⟩
    rw [List.mapM_cons, first, others]
    rfl

theorem types_ok {ps : List TypeExpr} (each : ∀ p ∈ ps, ∃ json, type p = .ok json) :
    ∃ all, types ps = .ok all := by
  induction ps with
  | nil => exact ⟨[], rfl⟩
  | cons p ps ih =>
    obtain ⟨json, first⟩ := each p List.mem_cons_self
    obtain ⟨all, others⟩ := ih fun q member => each q (List.mem_cons_of_mem p member)
    refine ⟨json :: all, ?_⟩
    unfold types
    rw [first, others]
    rfl

theorem type_ok {t : TypeExpr} (resolved : t.isFullyResolved = true) :
    ∃ json, type t = .ok json := by
  unfold TypeExpr.isFullyResolved at resolved
  rw [List.all_eq_true] at resolved
  induction t using TypeExpr.induction with
  | bare h =>
    obtain ⟨name, found⟩ := Option.isSome_iff_exists.1 (resolved ⟨h, none⟩ (by simp))
    unfold type nameOf
    rw [found]
    exact ⟨_, rfl⟩
  | params h ps ih =>
    obtain ⟨name, found⟩ := Option.isSome_iff_exists.1 (resolved ⟨h, some ps⟩ (by simp))
    have each : ∀ p ∈ ps, ∃ json, type p = .ok json := by
      intro p member
      refine ih p member fun q inside => resolved q ?_
      rw [TypeExpr.parts_params]
      exact List.mem_cons_of_mem _ (List.mem_flatMap.2 ⟨p, member, inside⟩)
    obtain ⟨all, params⟩ := types_ok each
    unfold type nameOf
    rw [found, params]
    exact ⟨_, rfl⟩

theorem argument_ok {a : Argument} (resolved : a.type.isFullyResolved = true) :
    ∃ json, argument a = .ok json := by
  obtain ⟨json, h⟩ := type_ok resolved
  unfold argument
  rw [h]
  exact ⟨_, rfl⟩

theorem method_ok {m : Method} (resolved : ∀ t ∈ m.types, t.isFullyResolved = true) :
    ∃ json, method m = .ok json := by
  have inner : ∀ a ∈ m.arguments, ∃ json, argument a = .ok json := by
    intro a member
    exact argument_ok (resolved _ (List.mem_cons_of_mem _ (List.mem_map.2 ⟨a, member, rfl⟩)))
  obtain ⟨arguments, harguments⟩ := mapM_ok inner
  obtain ⟨json, h⟩ := type_ok (resolved _ List.mem_cons_self)
  unfold method
  rw [harguments, h]
  exact ⟨_, rfl⟩

theorem declaration_ok {d : Declaration} (resolved : ∀ t ∈ d.types, t.isFullyResolved = true) :
    ∃ json, declaration d = .ok json := by
  obtain ⟨header, body⟩ := d
  cases body with
  | parcelable name cppHeader => exact ⟨_, rfl⟩
  | structured name fields =>
    have each : ∀ f ∈ fields, ∃ json, field f = .ok json := by
      intro f member
      obtain ⟨json, h⟩ := type_ok (resolved _ (List.mem_map.2 ⟨f, member, rfl⟩))
      unfold field
      rw [h]
      exact ⟨_, rfl⟩
    obtain ⟨all, h⟩ := mapM_ok each
    unfold declaration
    dsimp only
    rw [h]
    exact ⟨_, rfl⟩
  | interface oneway methods constants =>
    have eachConstant : ∀ c ∈ constants, ∃ json, constant c = .ok json := by
      intro c member
      obtain ⟨json, h⟩ :=
        type_ok (resolved _ (List.mem_append_right _ (List.mem_map.2 ⟨c, member, rfl⟩)))
      unfold constant
      rw [h]
      exact ⟨_, rfl⟩
    have eachMethod : ∀ m ∈ methods, ∃ json, method m = .ok json := by
      intro m member
      refine method_ok fun t inside => resolved t ?_
      exact List.mem_append_left _ (List.mem_flatMap.2 ⟨m, member, inside⟩)
    obtain ⟨allConstants, hconstants⟩ := mapM_ok eachConstant
    obtain ⟨allMethods, hmethods⟩ := mapM_ok eachMethod
    unfold declaration
    dsimp only
    rw [hconstants]
    change ∃ json, (methods.mapM method >>= _) = .ok json
    rw [hmethods]
    exact ⟨_, rfl⟩

theorem unit_ok {d : Declaration} (resolved : ∀ t ∈ d.types, t.isFullyResolved = true)
    (imports : List LoadedImport) : ∃ json, unit d imports = .ok json := by
  obtain ⟨json, h⟩ := declaration_ok resolved
  unfold unit
  rw [h]
  exact ⟨_, rfl⟩

end IdlFrontEnd.Export
