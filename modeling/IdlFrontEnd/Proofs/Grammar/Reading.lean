import IdlFrontEnd.Proofs.Grammar.Derivation
import IdlFrontEnd.Proofs.Step

/-!
# Rules and what they derive

A rule is sound for a relation if, whenever it gives a value and nothing is reported by then, the
lexemes it took derive that value. Since a report is never taken back, the condition on the log
reaches every step of a sequence from its end, and a broken member or declaration, which would be
passed over with a report, cannot have been met. A rule is complete if it takes what derives a value
from the front of any lexemes that cannot prolong it, and gives a value of the same view.
-/
namespace IdlFrontEnd.Grammar

theorem lastPlace_append (place : Location) (as bs : List Lexeme) :
    lastPlace place (as ++ bs) = lastPlace (lastPlace place as) bs := by
  induction as generalizing place with
  | nil => rfl
  | cons a as ih => exact ih a.location

/-- Between two readings exactly these lexemes were taken and nothing was reported. The end of the
file is not among them. -/
structure Took (r : Reading) (ls : List Lexeme) (next : Reading) : Prop where
  rest : r.rest = ls ++ next.rest
  previous : next.previous = lastPlace r.previous ls
  notes : next.notes = r.notes
  inside : ∀ l ∈ ls, l.token ≠ .eof

namespace Took

theorem refl (r : Reading) : Took r [] r := ⟨rfl, rfl, rfl, by simp⟩

theorem trans {r mid next : Reading} {as bs : List Lexeme} (first : Took r as mid)
    (second : Took mid bs next) : Took r (as ++ bs) next := by
  refine ⟨?_, ?_, second.notes.trans first.notes, ?_⟩
  · rw [first.rest, second.rest, List.append_assoc]
  · rw [second.previous, first.previous, lastPlace_append]
  · intro l member
    rcases List.mem_append.1 member with member | member
    · exact first.inside l member
    · exact second.inside l member

theorem cons {r mid next : Reading} {l : Lexeme} {ls : List Lexeme} (first : Took r [l] mid)
    (second : Took mid ls next) : Took r (l :: ls) next :=
  first.trans second

/-- A token other than the end is that of a lexeme, and taking it takes that lexeme. -/
theorem take {r : Reading} (inside : r.token ≠ .eof) :
    ∃ l, l.token = r.token ∧ Took r [l] r.take := by
  obtain ⟨rest, previous, notes⟩ := r
  cases rest with
  | nil => exact absurd rfl inside
  | cons l rest =>
    refine ⟨l, rfl, rfl, rfl, rfl, ?_⟩
    intro x member
    rw [List.mem_singleton.1 member]
    exact inside

theorem current {r next : Reading} {l : Lexeme} {ls : List Lexeme} (took : Took r (l :: ls) next) :
    r.current = l := by
  simp [Reading.current, took.rest]

/-- The place that a rule gives its node is that of the lexemes it took. -/
theorem span {r next : Reading} {ls : List Lexeme} (took : Took r ls next) (some : ls ≠ []) :
    r.current.location.upTo next.previous = span ls := by
  cases ls with
  | nil => exact absurd rfl some
  | cons l ls =>
    rw [took.current, took.previous]
    rfl

theorem comments {r next : Reading} {ls : List Lexeme} (took : Took r ls next) (some : ls ≠ []) :
    r.current.comments = leadComments ls := by
  cases ls with
  | nil => exact absurd rfl some
  | cons l ls =>
    rw [took.current]
    rfl

theorem length_lt {r next : Reading} {ls : List Lexeme} (took : Took r ls next) (some : ls ≠ []) :
    next.rest.length < r.rest.length := by
  have positive := List.length_pos_iff.2 some
  rw [took.rest, List.length_append]
  omega

end Took

/-- What the rule gives without a report is derived from what it took. -/
def Sound {ε α : Type} (D : List Lexeme → α → Prop) (rule : EStateM ε Reading α) : Prop :=
  ∀ r a next, rule r = .ok a next → next.notes = [] → ∃ ls, Took r ls next ∧ D ls a

/-- Derived from one lexeme or more. -/
def Inhabited {α : Type} (D : List Lexeme → α → Prop) : Prop := ∀ ls a, D ls a → ls ≠ []

/-! ## Single lexemes -/

theorem accept_sound {t : Token} {r next : Reading} {b : Bool} (inside : t ≠ .eof)
    (h : accept t r = .ok b next) :
    (b = true ∧ ∃ l, l.token = t ∧ Took r [l] next) ∨ (b = false ∧ next = r) := by
  obtain ⟨seen, mid, hseen, h⟩ := bind_eq_ok.1 h
  cases hseen
  split at h
  next equal =>
    obtain ⟨_, after, htake, h⟩ := bind_eq_ok.1 h
    cases htake
    cases h
    obtain ⟨l, hl, took⟩ := Took.take (equal ▸ inside)
    exact .inl ⟨rfl, l, hl.trans equal, took⟩
  · cases h
    exact .inr ⟨rfl, rfl⟩

theorem expect_sound {t : Token} {r next : Reading} {u : Unit} (inside : t ≠ .eof)
    (h : expect t r = .ok u next) : ∃ l, l.token = t ∧ Took r [l] next := by
  obtain ⟨seen, mid, hseen, h⟩ := bind_eq_ok.1 h
  cases hseen
  split at h
  next equal =>
    cases h
    obtain ⟨l, hl, took⟩ := Took.take (equal ▸ inside)
    exact ⟨l, hl.trans equal, took⟩
  · cases h

/-! ## Repetition -/

/-- A loop that is silent ends where no more items are asked for. The items only have to be sound
where it starts one. -/
theorem manyWhile_ends {ε α : Type} {D : List Lexeme → α → Prop} {more : Token → Bool}
    {item : EStateM ε Reading α} (inhabited : Inhabited D)
    (sound : ∀ r a next, more r.token = true → item r = .ok a next → next.notes = [] →
      ∃ ls, Took r ls next ∧ D ls a) {r : Reading} {as : List α} {next : Reading}
    (h : manyWhile more item r = .ok as next) (silent : next.notes = []) :
    (∃ ls, Took r ls next ∧ Many D ls as) ∧ more next.token = false := by
  induction hn : r.rest.length using Nat.strongRecOn generalizing r as with
  | ind n ih =>
    rw [manyWhile] at h
    split at h
    next wanted =>
      cases hitem : item r with
      | error e mid => simp [hitem] at h
      | ok a mid =>
        simp only [hitem] at h
        split at h
        next shorter =>
          cases hrest : manyWhile more item mid with
          | error e final => simp [hrest] at h
          | ok others final =>
            simp only [hrest, EStateM.Result.ok.injEq] at h
            obtain ⟨rfl, rfl⟩ := h
            obtain ⟨⟨bs, tookOthers, derived⟩, ended⟩ :=
              ih mid.rest.length (hn ▸ shorter) hrest rfl
            obtain ⟨ls, tookFirst, first⟩ :=
              sound r a mid wanted hitem (tookOthers.notes.symm.trans silent)
            exact ⟨⟨ls ++ bs, tookFirst.trans tookOthers, .cons first derived⟩, ended⟩
        next stuck =>
          simp only [EStateM.Result.ok.injEq] at h
          obtain ⟨rfl, rfl⟩ := h
          obtain ⟨ls, took, first⟩ := sound r a mid wanted hitem silent
          exact absurd (took.length_lt (inhabited ls a first)) stuck
    next ended =>
      simp only [EStateM.Result.ok.injEq] at h
      obtain ⟨rfl, rfl⟩ := h
      exact ⟨⟨[], .refl r, .nil⟩, Bool.eq_false_iff.2 ended⟩

theorem manyWhile_sound {ε α : Type} {D : List Lexeme → α → Prop} {more : Token → Bool}
    {item : EStateM ε Reading α} (inhabited : Inhabited D)
    (sound : ∀ r a next, more r.token = true → item r = .ok a next → next.notes = [] →
      ∃ ls, Took r ls next ∧ D ls a) :
    Sound (Many D) (manyWhile more item) :=
  fun _ _ _ h silent => (manyWhile_ends inhabited sound h silent).1

theorem after_inhabited {α : Type} {mark : Mark} {D : List Lexeme → α → Prop} :
    Inhabited (After mark D) := by
  rintro _ a ⟨_, _⟩
  simp

theorem separated_inhabited {α : Type} {mark : Mark} {D : List Lexeme → α → Prop}
    (inhabited : Inhabited D) : Inhabited (Separated mark D) := by
  rintro _ _ ⟨first, _⟩
  simp [inhabited _ _ first]

/-- One item behind a separator, as both kinds of lists read it. -/
theorem after_sound {α : Type} {mark : Mark} {D : List Lexeme → α → Prop} {item : Rule α}
    (sound : Sound D item) (r : Reading) (a : α) (next : Reading)
    (wanted : decide (r.token = .mark mark) = true) (h : (do take; item) r = .ok a next)
    (silent : next.notes = []) : ∃ ls, Took r ls next ∧ After mark D ls a := by
  obtain ⟨_, mid, htake, h⟩ := bind_eq_ok.1 h
  cases htake
  have isMark := of_decide_eq_true wanted
  obtain ⟨l, hl, tookMark⟩ := Took.take (r := r) (by simp [isMark])
  obtain ⟨ls, took, derived⟩ := sound _ a next h silent
  exact ⟨l :: ls, tookMark.cons took, .mk (hl.trans isMark) derived⟩

theorem separated_sound {α : Type} {D : List Lexeme → α → Prop} {item : Rule α}
    (sound : Sound D item) : Sound (Separated .comma D) (separated item) := by
  intro r as next h silent
  obtain ⟨first, mid, hfirst, h⟩ := bind_eq_ok.1 h
  obtain ⟨others, last, hothers, h⟩ := bind_eq_ok.1 h
  cases h
  obtain ⟨bs, tookOthers, derived⟩ :=
    manyWhile_sound after_inhabited (after_sound sound) mid others next hothers silent
  obtain ⟨ls, tookFirst, derivedFirst⟩ :=
    sound r first mid hfirst (tookOthers.notes.symm.trans silent)
  exact ⟨ls ++ bs, tookFirst.trans tookOthers, .mk derivedFirst derived⟩

/-! ## The other direction -/

/-- The token in front of what is left. -/
def nextToken (rest : List Lexeme) : Token := (rest.head?.map Lexeme.token).getD .eof

theorem token_eq_nextToken (r : Reading) : r.token = nextToken r.rest := by
  obtain ⟨rest, previous, notes⟩ := r
  cases rest <;> rfl

/-- The rule takes what derives a value if what comes behind it is fit to follow, and its own value
looks the same. -/
def Complete {ε α β : Type} (view : α → β) (D : List Lexeme → α → Prop) (follow : Token → Prop)
    (rule : EStateM ε Reading α) : Prop :=
  ∀ ls a rest previous notes, D ls a → follow (nextToken rest) →
    ∃ b, rule ⟨ls ++ rest, previous, notes⟩ = .ok b ⟨rest, lastPlace previous ls, notes⟩ ∧
      view b = view a

/-- For a rule that is complete with the whole value in view. -/
theorem Complete.exact {ε α : Type} {D : List Lexeme → α → Prop} {follow : Token → Prop}
    {rule : EStateM ε Reading α} (complete : Complete id D follow rule) {ls : List Lexeme}
    {a : α} (rest : List Lexeme) (previous : Location) (notes : List Diagnostic) (derived : D ls a)
    (fit : follow (nextToken rest)) :
    rule ⟨ls ++ rest, previous, notes⟩ = .ok a ⟨rest, lastPlace previous ls, notes⟩ := by
  obtain ⟨b, h, same⟩ := complete ls a rest previous notes derived fit
  rw [h, show b = a from same]

section
variable {α : Type} {l : Lexeme} {rest : List Lexeme} {previous : Location}
  {notes : List Diagnostic} {r : Reading} {t : Token}

theorem current_bind (f : Lexeme → Rule α) : (current >>= f) r = f r.current r := rfl

theorem token_bind (f : Token → Rule α) : (token >>= f) r = f r.token r := rfl

theorem take_bind (f : Unit → Rule α) : (take >>= f) r = f () r.take := rfl

theorem spanFrom_bind (first : Lexeme) (f : Location → Rule α) :
    (spanFrom first >>= f) r = f (first.location.upTo r.previous) r := rfl

theorem accept_present (h : l.token = t) :
    accept t ⟨l :: rest, previous, notes⟩ = .ok true ⟨rest, l.location, notes⟩ := by
  have stands : Reading.token ⟨l :: rest, previous, notes⟩ = t := h
  unfold accept
  rw [token_bind, if_pos stands]
  rfl

theorem accept_absent (h : nextToken rest ≠ t) :
    accept t ⟨rest, previous, notes⟩ = .ok false ⟨rest, previous, notes⟩ := by
  unfold accept
  rw [token_bind, token_eq_nextToken, if_neg h]
  rfl

/-- The place of a node that is read from the front. -/
theorem place_of_front (rest : List Lexeme) (previous : Location) (notes : List Diagnostic)
    {ls : List Lexeme} (some : ls ≠ []) :
    (Reading.current ⟨ls ++ rest, previous, notes⟩).location.upTo (lastPlace previous ls) =
      span ls := by
  cases ls with
  | nil => exact absurd rfl some
  | cons l ls => rfl

theorem comments_of_front (rest : List Lexeme) (previous : Location) (notes : List Diagnostic)
    {ls : List Lexeme} (some : ls ≠ []) :
    (Reading.current ⟨ls ++ rest, previous, notes⟩).comments = leadComments ls := by
  cases ls with
  | nil => exact absurd rfl some
  | cons l ls => rfl

theorem expect_present (h : l.token = t) :
    expect t ⟨l :: rest, previous, notes⟩ = .ok () ⟨rest, l.location, notes⟩ := by
  have stands : Reading.token ⟨l :: rest, previous, notes⟩ = t := h
  unfold expect
  rw [token_bind, if_pos stands]
  rfl

end

theorem manyWhile_complete {ε α β : Type} {view : α → β} {D : List Lexeme → α → Prop}
    {follow : Token → Prop} {more : Token → Bool} {item : EStateM ε Reading α}
    (inhabited : Inhabited D) (complete : Complete view D follow item)
    (starts : ∀ ls a rest, D ls a →
      more (nextToken (ls ++ rest)) = true ∧ follow (nextToken (ls ++ rest))) :
    Complete (List.map view) (Many D) (fun t => follow t ∧ more t = false)
      (manyWhile more item) := by
  intro ls as rest previous notes derived fit
  induction derived generalizing previous with
  | nil =>
    refine ⟨[], ?_, rfl⟩
    rw [manyWhile, token_eq_nextToken]
    simp [fit.2, lastPlace]
  | @cons ls others a as first derived ih =>
    have behind : follow (nextToken (others ++ rest)) := by
      cases derived with
      | nil => exact fit.1
      | cons second _ =>
        rw [List.append_assoc]
        exact (starts _ _ _ second).2
    obtain ⟨b, hitem, sameFirst⟩ :=
      complete ls a (others ++ rest) previous notes first behind
    obtain ⟨bs, hothers, sameOthers⟩ := ih (lastPlace previous ls)
    have shorter : (others ++ rest).length < (ls ++ (others ++ rest)).length := by
      have positive := List.length_pos_iff.2 (inhabited ls a first)
      simp only [List.length_append]
      omega
    refine ⟨b :: bs, ?_, by simp [sameFirst, sameOthers]⟩
    rw [manyWhile, token_eq_nextToken, List.append_assoc, if_pos (starts _ _ _ first).1, hitem]
    dsimp only
    rw [if_pos shorter, hothers, lastPlace_append]

theorem after_complete {α β : Type} {view : α → β} {mark : Mark} {D : List Lexeme → α → Prop}
    {follow : Token → Prop} {item : Rule α} (complete : Complete view D follow item) :
    Complete view (After mark D) follow (do take; item) := by
  rintro _ a rest previous notes ⟨separator, derived⟩ fit
  exact complete _ a rest _ notes derived fit

theorem separated_complete {α β : Type} {view : α → β} {D : List Lexeme → α → Prop}
    {follow : Token → Prop} {item : Rule α} (complete : Complete view D follow item)
    (comma : follow (.mark .comma)) :
    Complete (List.map view) (Separated .comma D) (fun t => follow t ∧ t ≠ .mark .comma)
      (separated item) := by
  rintro _ _ rest previous notes ⟨first, others⟩ ⟨fit, last⟩
  rename_i ls bs a as
  have behind : follow (nextToken (bs ++ rest)) := by
    cases others with
    | nil => exact fit
    | cons second _ =>
      obtain ⟨separator, _⟩ := second
      simpa [nextToken, separator] using comma
  have loop : Complete (List.map view) (Many (After .comma D))
      (fun t => follow t ∧ decide (t = .mark .comma) = false)
      (manyWhile (· = .mark .comma) do take; item) := by
    refine manyWhile_complete after_inhabited (after_complete complete) ?_
    rintro _ a rest ⟨separator, _⟩
    simp [nextToken, separator, comma]
  obtain ⟨b, hfirst, sameFirst⟩ := complete ls a (bs ++ rest) previous notes first behind
  obtain ⟨cs, hothers, sameOthers⟩ :=
    loop bs as rest (lastPlace previous ls) notes others ⟨fit, decide_eq_false last⟩
  refine ⟨b :: cs, ?_, by simp [sameFirst, sameOthers]⟩
  unfold separated
  rw [List.append_assoc, bind_of_ok hfirst, bind_of_ok hothers, lastPlace_append]
  rfl

/-- A list of what is always there. -/
theorem many_some_iff {α : Type} {D : List Lexeme → α → Prop} {ls : List Lexeme}
    {os : List (Option α)} :
    Many (fun ls o => ∃ a, o = some a ∧ D ls a) ls os ↔ ∃ as, os = as.map some ∧ Many D ls as := by
  constructor
  · intro derived
    induction derived with
    | nil => exact ⟨[], rfl, .nil⟩
    | cons first _ ih =>
      obtain ⟨a, rfl, first⟩ := first
      obtain ⟨as, rfl, others⟩ := ih
      exact ⟨a :: as, rfl, .cons first others⟩
  · rintro ⟨as, rfl, derived⟩
    induction derived with
    | nil => exact .nil
    | cons first _ ih => exact .cons ⟨_, rfl, first⟩ ih

end IdlFrontEnd.Grammar
