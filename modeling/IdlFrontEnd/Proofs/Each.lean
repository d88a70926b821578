import Mathlib.Data.List.Perm.Basic

/-!
# A value for each item

One value is computed for each item of a list, in order, until one is missing. In another order the
same values are found in that order, and a search for what is there at most once finds it in every
order.
-/
namespace IdlFrontEnd

section
variable {ε α β γ : Type} {x : Except ε α} {g : α → β}

theorem map_eq_ok_iff {b : β} : x.map g = .ok b ↔ ∃ a, x = .ok a ∧ g a = b := by
  cases x <;> simp [Except.map]

theorem map_eq_error_iff {e : ε} : x.map g = .error e ↔ x = .error e := by
  cases x <;> simp [Except.map]

theorem except_bind_eq_ok_iff {h : α → Except ε β} {b : β} :
    (x >>= h) = .ok b ↔ ∃ a, x = .ok a ∧ h a = .ok b := by
  cases x <;> simp [bind, Except.bind]

theorem isOk_map (x : Except ε α) (g : α → β) : (x.map g).isOk = x.isOk := by
  cases x <;> rfl

variable {f : α → Except ε β} {as as' : List α} {bs : List β}

theorem mapM_eq_ok_iff : as.mapM f = .ok bs ↔ List.Forall₂ (fun a b => f a = .ok b) as bs := by
  induction as generalizing bs with
  | nil =>
    rw [List.mapM_nil, List.forall₂_nil_left_iff]
    exact ⟨fun h => (Except.ok.inj h).symm, fun h => h ▸ rfl⟩
  | cons a as ih =>
    rw [List.mapM_cons, List.forall₂_cons_left_iff]
    simp only [← ih]
    cases f a with
    | error e => simp [bind, Except.bind]
    | ok b => cases as.mapM f <;> simp [bind, Except.bind, pure, Except.pure, eq_comm]

theorem isOk_mapM : (as.mapM f).isOk = true ↔ ∀ a ∈ as, (f a).isOk = true := by
  induction as with
  | nil => exact ⟨by simp, fun _ => rfl⟩
  | cons a as ih =>
    rw [List.mapM_cons, List.forall_mem_cons, ← ih]
    cases f a with
    | error e => simp [bind, Except.bind, Except.isOk, Except.toBool]
    | ok b =>
      cases as.mapM f <;>
        simp [bind, Except.bind, pure, Except.pure, Except.isOk, Except.toBool]

/-- The first value that is missing decides. -/
theorem mapM_eq_error {e : ε} (failed : as.mapM f = .error e) :
    ∃ before a after, as = before ++ a :: after ∧ (∀ b ∈ before, (f b).isOk = true) ∧
      f a = .error e := by
  induction as with
  | nil => cases failed
  | cons a as ih =>
    rw [List.mapM_cons] at failed
    cases first : f a with
    | error e' =>
      rw [first] at failed
      cases failed
      exact ⟨[], a, as, rfl, by simp, first⟩
    | ok b =>
      have later : as.mapM f = .error e := by
        rw [first] at failed
        cases rest : as.mapM f with
        | error e' =>
          rw [rest] at failed
          cases failed
          rfl
        | ok others =>
          rw [rest] at failed
          cases failed
      obtain ⟨before, a', after, rfl, passed, found⟩ := ih later
      refine ⟨a :: before, a', after, rfl, ?_, found⟩
      exact List.forall_mem_cons.2 ⟨by rw [first]; rfl, passed⟩

theorem mapM_map {g : β → γ} (as : List α) :
    (as.mapM fun a => (f a).map g) = (as.mapM f).map (List.map g) := by
  induction as with
  | nil => rfl
  | cons a as ih =>
    rw [List.mapM_cons, List.mapM_cons, ih]
    cases f a with
    | error e => rfl
    | ok b => cases as.mapM f <;> rfl

theorem mem_of_mapM (found : as.mapM f = .ok bs) {b : β} (member : b ∈ bs) :
    ∃ a ∈ as, f a = .ok b := by
  induction mapM_eq_ok_iff.1 found with
  | nil => cases member
  | @cons a b' as bs own rest ih =>
    rcases List.mem_cons.1 member with rfl | member
    · exact ⟨a, List.mem_cons_self, own⟩
    · obtain ⟨a', later, found⟩ := ih (mapM_eq_ok_iff.2 rest) member
      exact ⟨a', List.mem_cons_of_mem a later, found⟩

theorem mapM_perm (perm : as.Perm as') (found : as.mapM f = .ok bs) :
    ∃ bs', as'.mapM f = .ok bs' ∧ bs.Perm bs' := by
  obtain ⟨bs', found, same⟩ := List.perm_comp_forall₂ perm.symm (mapM_eq_ok_iff.1 found)
  exact ⟨bs', mapM_eq_ok_iff.2 found, same.symm⟩

theorem find?_perm {p : α → Bool} (perm : as.Perm as')
    (once : as.Pairwise fun a b => ¬ (p a = true ∧ p b = true)) : as.find? p = as'.find? p := by
  induction perm with
  | nil => rfl
  | cons a _ ih => rw [List.find?_cons, List.find?_cons, ih (List.pairwise_cons.1 once).2]
  | swap a b as =>
    have apart := (List.pairwise_cons.1 once).1 a List.mem_cons_self
    simp only [List.find?_cons]
    cases ha : p a <;> cases hb : p b <;> simp_all
  | trans first _ ih ih' =>
    rw [ih once, ih' (once.perm first fun apart both => apart ⟨both.2, both.1⟩)]

end

end IdlFrontEnd
