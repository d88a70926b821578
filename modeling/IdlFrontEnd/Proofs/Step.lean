/-!
# Steps with a state

Rules of the grammar, the import walk and the steps of loading all are functions that take a state
and give a value or an error with the state they leave. What follows opens a sequence of such steps,
and compares two sequences step by step.
-/
namespace IdlFrontEnd

/-- The state that a step leaves, whether it fails or not. -/
def stateAfter {ε σ α : Type} : EStateM.Result ε σ α → σ
  | .ok _ s => s
  | .error _ s => s

/-- The value or the error of a step, without the state that it leaves. -/
def outcome {ε σ α : Type} : EStateM.Result ε σ α → Except ε α
  | .ok a _ => .ok a
  | .error e _ => .error e

section
variable {ε σ α β : Type} {x : EStateM ε σ α} {f : α → EStateM ε σ β} {s t : σ}

/-- A sequence succeeds exactly through a state in between. -/
theorem bind_eq_ok {b : β} :
    (x >>= f) s = .ok b t ↔ ∃ a mid, x s = .ok a mid ∧ f a mid = .ok b t := by
  change EStateM.bind x f s = _ ↔ _
  unfold EStateM.bind
  cases h : x s with
  | ok a mid =>
    constructor
    · intro hb
      exact ⟨a, mid, rfl, hb⟩
    · rintro ⟨a', mid', hx, hb⟩
      cases hx
      exact hb
  | error e mid =>
    constructor
    · intro hb
      cases hb
    · rintro ⟨a', mid', hx, -⟩
      cases hx

theorem bind_of_ok {a : α} (h : x s = .ok a t) : (x >>= f) s = f a t := by
  change EStateM.bind x f s = _
  unfold EStateM.bind
  rw [h]

theorem bind_of_error {e : ε} (h : x s = .error e t) : (x >>= f) s = .error e t := by
  change EStateM.bind x f s = _
  unfold EStateM.bind
  rw [h]

theorem pure_eq_ok {a b : α} : (pure a : EStateM ε σ α) s = .ok b t ↔ a = b ∧ s = t := by
  change EStateM.Result.ok a s = .ok b t ↔ _
  simp only [EStateM.Result.ok.injEq]

theorem throw_eq_ok {e : ε} {a : α} : ¬ (throw e : EStateM ε σ α) s = .ok a t := by
  intro thrown
  cases thrown

theorem get_bind (f : σ → EStateM ε σ β) : (get >>= f) s = f s s := rfl

theorem modify_bind (g : σ → σ) (f : PUnit → EStateM ε σ β) :
    (modify g >>= f) s = f ⟨⟩ (g s) := rfl

theorem set_bind (f : PUnit → EStateM ε σ β) : (set t >>= f) s = f ⟨⟩ t := rfl

/-- Both steps give a value or both give an error, and their values, errors and states are alike. -/
inductive Ends {ε σ α : Type} (error : ε → ε → Prop) (state : σ → σ → Prop) (value : α → α → Prop) :
    EStateM.Result ε σ α → EStateM.Result ε σ α → Prop
  | ok {a b : α} {s t : σ} (values : value a b) (states : state s t) :
    Ends error state value (.ok a s) (.ok b t)
  | error {e f : ε} {s t : σ} (errors : error e f) (states : state s t) :
    Ends error state value (.error e s) (.error f t)

theorem Ends.bind {error : ε → ε → Prop} {state : σ → σ → Prop} {first : α → α → Prop}
    {last : β → β → Prop} {y : EStateM ε σ α} {g : α → EStateM ε σ β}
    (both : Ends error state first (x s) (y t))
    (next : ∀ a b mid mid', first a b → state mid mid' →
      Ends error state last (f a mid) (g b mid')) :
    Ends error state last ((x >>= f) s) ((y >>= g) t) := by
  cases hx : x s with
  | ok a mid =>
    cases hy : y t with
    | ok b mid' =>
      rw [hx, hy] at both
      obtain ⟨values, states⟩ := both
      rw [bind_of_ok hx, bind_of_ok hy]
      exact next a b mid mid' values states
    | error e mid' =>
      rw [hx, hy] at both
      cases both
  | error e mid =>
    cases hy : y t with
    | ok b mid' =>
      rw [hx, hy] at both
      cases both
    | error e' mid' =>
      rw [hx, hy] at both
      rw [bind_of_error hx, bind_of_error hy]
      cases both with
      | error errors states => exact .error errors states

end

end IdlFrontEnd
