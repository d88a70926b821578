import IdlFrontEnd.Grammar.SourceFile
import IdlFrontEnd.Proofs.Step

/-!
# Reading goes onward

Whatever the lexemes are, a rule takes them from the front one by one and never takes the end of the
file, and neither recovery passes it. Each kind of rule either takes a lexeme where it gives a value
or is read after one that does, so a round of a loop that is not the last one takes at least one
lexeme. A loop therefore never stops because an item took nothing, and the bound on how deep types
nest is never reached: both loops and types are read as if there were no such bounds.
-/
namespace IdlFrontEnd.Grammar

/-- `ms` is what is left of `ls` after lexemes were taken from the front, none of them the end of the
file, and at least one if `some`. -/
def Onward (some : Bool) (ls ms : List Lexeme) : Prop :=
  ∃ taken, ls = taken ++ ms ∧ (∀ l ∈ taken, l.token ≠ .eof) ∧ (some = true → taken ≠ [])

namespace Onward

variable {b c : Bool} {ls ms ns : List Lexeme}

theorem refl (ls : List Lexeme) : Onward false ls ls :=
  ⟨[], rfl, fun _ member => absurd member List.not_mem_nil, nofun⟩

theorem cons {l : Lexeme} (inside : l.token ≠ .eof) (others : Onward b ls ms) :
    Onward true (l :: ls) ms := by
  obtain ⟨taken, rfl, noEnd, -⟩ := others
  exact ⟨l :: taken, rfl, List.forall_mem_cons.2 ⟨inside, noEnd⟩, fun _ => List.cons_ne_nil _ _⟩

theorem weaken (onward : Onward b ls ms) : Onward false ls ms := by
  obtain ⟨taken, parts, noEnd, -⟩ := onward
  exact ⟨taken, parts, noEnd, nofun⟩

theorem trans (first : Onward b ls ms) (second : Onward c ms ns) : Onward (b || c) ls ns := by
  obtain ⟨before, rfl, noEnd, some⟩ := first
  obtain ⟨after, rfl, noEnd', some'⟩ := second
  refine ⟨before ++ after, (List.append_assoc ..).symm, ?_, ?_⟩
  · exact fun l member => (List.mem_append.1 member).elim (noEnd l) (noEnd' l)
  · intro either none
    obtain ⟨none, none'⟩ := List.append_eq_nil_iff.1 none
    rcases Bool.or_eq_true_iff.1 either with own | own
    · exact some own none
    · exact some' own none'

theorem length_le (onward : Onward b ls ms) : ms.length ≤ ls.length := by
  obtain ⟨taken, rfl, -, -⟩ := onward
  simp

theorem length_lt (onward : Onward true ls ms) : ms.length < ls.length := by
  obtain ⟨taken, rfl, -, some⟩ := onward
  have nonempty := List.length_pos_iff.2 (some rfl)
  rw [List.length_append]
  omega

/-- The end of the file stays ahead. -/
theorem keeps_end (onward : Onward b ls ms) (closed : ∃ l ∈ ls, l.token = .eof) :
    ∃ l ∈ ms, l.token = .eof := by
  obtain ⟨taken, rfl, noEnd, -⟩ := onward
  obtain ⟨l, member, last⟩ := closed
  rcases List.mem_append.1 member with member | member
  · exact absurd last (noEnd l member)
  · exact ⟨l, member, last⟩

end Onward

/-! ## Recovery -/

theorem afterDeclarationFrom_onward (depth : Nat) (moved : Bool) (ls : List Lexeme) :
    Onward false ls (afterDeclarationFrom depth moved ls) := by
  fun_induction afterDeclarationFrom depth moved ls with
  | case1 => exact .refl _
  | case2 => exact .refl _
  | case3 depth moved l rest token ih => exact (ih.cons (by simp [token])).weaken
  | case4 depth moved l rest token shallow =>
    exact ((Onward.refl rest).cons (by simp [token])).weaken
  | case5 depth moved l rest token deep ih => exact (ih.cons (by simp [token])).weaken
  | case6 depth moved l rest notEnd _ _ _ => exact ((Onward.refl rest).cons notEnd).weaken
  | case7 => exact .refl _
  | case8 depth moved l rest notEnd _ _ _ _ ih => exact (ih.cons notEnd).weaken

/-- Recovery from a broken declaration moves off the lexeme that was rejected. -/
theorem afterDeclaration_advances {l : Lexeme} (inside : l.token ≠ .eof) (rest : List Lexeme) :
    Onward true (l :: rest) (afterDeclaration (l :: rest)) := by
  unfold afterDeclaration afterDeclarationFrom
  split
  · contradiction
  · exact (afterDeclarationFrom_onward _ _ _).cons inside
  · exact (Onward.refl rest).cons inside
  · split
    · exact (Onward.refl rest).cons inside
    · rw [if_neg (by simp)]
      exact (afterDeclarationFrom_onward _ _ _).cons inside

theorem afterMemberFrom_onward (depth : Int) (ls : List Lexeme) :
    Onward false ls (afterMemberFrom depth ls) := by
  fun_induction afterMemberFrom depth ls with
  | case1 => exact .refl _
  | case2 => exact .refl _
  | case3 depth l rest token ih => exact (ih.cons (by simp [token])).weaken
  | case4 depth l rest token ih => exact (ih.cons (by simp [token])).weaken
  | case5 depth l rest token ih => exact (ih.cons (by simp [token])).weaken
  | case6 => exact .refl _
  | case7 depth l rest token deep ih => exact (ih.cons (by simp [token])).weaken
  | case8 depth l rest notEnd _ _ _ _ _ => exact ((Onward.refl rest).cons notEnd).weaken
  | case9 depth l rest notEnd _ _ _ _ _ ih => exact (ih.cons notEnd).weaken

/-- Whether a lexeme with this token is one of a body that it does not close. -/
def inBody (t : Token) : Bool := t ≠ .mark .closeBrace && t ≠ .eof

theorem inBody_ne_eof {t : Token} (inside : inBody t = true) : t ≠ .eof := by
  rintro rfl
  cases inside

/-- Recovery from a broken member moves off the lexeme that was rejected, unless it closes the body. -/
theorem afterMember_advances {l : Lexeme} (inside : inBody l.token = true) (rest : List Lexeme) :
    Onward true (l :: rest) (afterMember (l :: rest)) := by
  have notEnd := inBody_ne_eof inside
  unfold afterMember afterMemberFrom
  split
  · contradiction
  · exact (afterMemberFrom_onward _ _).cons notEnd
  · exact (afterMemberFrom_onward _ _).cons notEnd
  · exact (afterMemberFrom_onward _ _).cons notEnd
  next closing => simp [closing, inBody] at inside
  · split
    · exact (Onward.refl rest).cons notEnd
    · exact (afterMemberFrom_onward _ _).cons notEnd

/-! ## Combinators -/

/-- A result that is onward of `ls`, by at least one lexeme if it is a value and `b`. -/
inductive Moved {ε α : Type} (b : Bool) (ls : List Lexeme) : EStateM.Result ε Reading α → Prop
  | ok {a : α} {next : Reading} (onward : Onward b ls next.rest) : Moved b ls (.ok a next)
  | error {e : ε} {next : Reading} (onward : Onward false ls next.rest) : Moved b ls (.error e next)

namespace Moved

variable {ε α : Type} {b : Bool} {ls ms : List Lexeme} {result : EStateM.Result ε Reading α}

theorem weaken (moved : Moved b ls result) : Moved false ls result := by
  cases moved with
  | ok onward => exact .ok onward.weaken
  | error onward => exact .error onward

/-- What a later step takes comes on top of what was taken before it. -/
theorem after {c : Bool} (before : Onward c ls ms) (moved : Moved b ms result) :
    Moved (c || b) ls result := by
  cases moved with
  | ok onward => exact .ok (before.trans onward)
  | error onward => exact .error (before.trans onward).weaken

end Moved

/-- From a token in `P` on, the rule goes onward, by at least one lexeme if it gives a value and
`b`. -/
def Moves {ε α : Type} (b : Bool) (P : Token → Prop) (rule : EStateM ε Reading α) : Prop :=
  ∀ r, P r.token → Moved b r.rest (rule r)

/-- Any token at all. -/
def Any (_ : Token) : Prop := True

namespace Moves

variable {ε α β : Type} {b c : Bool} {P Q : Token → Prop} {x y : EStateM ε Reading α}
  {f : α → EStateM ε Reading β}

theorem weaken (moves : Moves b P x) : Moves false P x :=
  fun r start => (moves r start).weaken

theorem imp (moves : Moves b P x) (fewer : ∀ t, Q t → P t) : Moves b Q x :=
  fun r start => moves r (fewer _ start)

theorem bind (first : Moves b P x) (next : ∀ a, Moves c Any (f a)) :
    Moves (b || c) P (x >>= f) := by
  intro r start
  have moved := first r start
  cases h : x r with
  | error e mid =>
    rw [h] at moved
    rw [bind_of_error h]
    cases moved with
    | error onward => exact .error onward
  | ok a mid =>
    rw [h] at moved
    rw [bind_of_ok h]
    cases moved with
    | ok onward => exact (next a mid trivial).after onward

/-- A step that takes something, whatever comes after it. -/
theorem lead (first : Moves true P x) (next : ∀ a, Moves false Any (f a)) :
    Moves true P (x >>= f) :=
  first.bind next

/-- After a step that may take nothing, what is taken for sure is up to the next one. -/
theorem follow (first : Moves b P x) (next : ∀ a, Moves c Any (f a)) : Moves c P (x >>= f) :=
  first.weaken.bind next

theorem pure (a : α) : Moves false P (Pure.pure a : EStateM ε Reading α) :=
  fun r _ => .ok (.refl r.rest)

theorem expected (wanted : String) : Moves b P (expected wanted : Rule α) :=
  fun r _ => .error (.refl r.rest)

theorem reject (cause : Cause) : Moves b P (reject cause : Rule α) :=
  fun r _ => .error (.refl r.rest)

theorem reported (found : α × List Diagnostic) : Moves false P (reported found) :=
  fun r _ => .ok (.refl r.rest)

theorem spanFrom (first : Lexeme) : Moves false P (spanFrom first) :=
  fun r _ => .ok (.refl r.rest)

/-- What is decided by the next token may rely on what it is. -/
theorem look {f : Token → Rule β} (next : ∀ t, P t → Moves b (· = t) (f t)) :
    Moves b P (token >>= f) :=
  fun r start => next r.token start r rfl

theorem glance {f : Lexeme → Rule β} (next : ∀ l, P l.token → Moves b (· = l.token) (f l)) :
    Moves b P (current >>= f) :=
  fun r start => next r.current start r rfl

theorem start {f : Lexeme → Rule β} (next : ∀ l, Moves b Any (f l)) : Moves b P (current >>= f) :=
  glance fun l _ => (next l).imp fun _ _ => trivial

theorem take (inside : ∀ t, P t → t ≠ .eof) : Moves true P take := by
  intro r start
  have notEnd := inside _ start
  obtain ⟨rest, previous, notes⟩ := r
  cases rest with
  | nil => exact absurd rfl notEnd
  | cons l rest => exact .ok ((Onward.refl rest).cons notEnd)

theorem take_of {t : Token} (inside : t ≠ .eof) : Moves true (· = t) Grammar.take :=
  take fun _ same => same ▸ inside

theorem ite {p : Prop} [Decidable p] (yes : p → Moves b P x) (no : ¬ p → Moves b P y) :
    Moves b P (if p then x else y) := by
  split
  next holds => exact yes holds
  next fails => exact no fails

theorem accept {t : Token} (inside : t ≠ .eof) : Moves false P (accept t) :=
  look fun _ _ => ite (fun same => (take_of (same ▸ inside)).weaken.follow fun _ => pure true)
    fun _ => pure false

theorem expect {t : Token} (inside : t ≠ .eof) : Moves true P (expect t) :=
  look fun _ _ => ite (fun same => take_of (same ▸ inside)) fun _ => expected _

end Moves

/-! ## Loops -/

/-- A loop round by round, which nothing but its test and a rejection ends. Every other round takes a
lexeme. -/
inductive Rounds {ε α : Type} (more : Token → Bool) (item : EStateM ε Reading α) :
    Reading → EStateM.Result ε Reading (List α) → Prop
  | ended {r : Reading} (stop : more r.token = false) : Rounds more item r (.ok [] r)
  | broken {r next : Reading} {e : ε} (go : more r.token = true)
    (rejected : item r = .error e next) : Rounds more item r (.error e next)
  | round {r next last : Reading} {a : α} {as : List α} (go : more r.token = true)
    (given : item r = .ok a next) (advance : Onward true r.rest next.rest)
    (others : Rounds more item next (.ok as last)) : Rounds more item r (.ok (a :: as) last)
  | roundBroken {r next last : Reading} {a : α} {e : ε} (go : more r.token = true)
    (given : item r = .ok a next) (advance : Onward true r.rest next.rest)
    (others : Rounds more item next (.error e last)) : Rounds more item r (.error e last)

section
variable {ε α : Type} {more : Token → Bool} {item : EStateM ε Reading α}

theorem manyWhile_rounds (each : Moves true (more · = true) item) (r : Reading) :
    Rounds more item r (manyWhile more item r) := by
  induction hn : r.rest.length using Nat.strongRecOn generalizing r with
  | ind n ih =>
    unfold manyWhile
    split
    next go =>
      have moved := each r go
      cases given : item r with
      | error e next => exact .broken go given
      | ok a next =>
        rw [given] at moved
        obtain ⟨advance⟩ := moved
        have shorter := advance.length_lt
        have others := ih next.rest.length (hn ▸ shorter) next rfl
        dsimp only
        rw [if_pos shorter]
        cases rest : manyWhile more item next with
        | ok as last =>
          rw [rest] at others
          exact .round go given advance others
        | error e last =>
          rw [rest] at others
          exact .roundBroken go given advance others
    next stop => exact .ended (Bool.eq_false_iff.2 stop)

theorem Rounds.moved {r : Reading} {result : EStateM.Result ε Reading (List α)}
    (each : Moves true (more · = true) item) (rounds : Rounds more item r result) :
    Moved false r.rest result := by
  induction rounds with
  | @ended r stop => exact .ok (.refl r.rest)
  | @broken r next e go rejected =>
    have moved := each r go
    rw [rejected] at moved
    cases moved with
    | error onward => exact .error onward
  | round go given advance others ih =>
    cases ih with
    | ok onward => exact .ok (advance.trans onward).weaken
  | roundBroken go given advance others ih =>
    cases ih with
    | error onward => exact .error (advance.trans onward).weaken

theorem Rounds.stopped {r last : Reading} {as : List α}
    (rounds : Rounds more item r (.ok as last)) : more last.token = false := by
  generalize hresult : EStateM.Result.ok as last = result at rounds
  induction rounds generalizing as with
  | ended stop =>
    cases hresult
    exact stop
  | round go given advance others ih =>
    cases hresult
    exact ih rfl
  | broken | roundBroken => cases hresult

end

namespace Moves

variable {α : Type} {b : Bool} {P : Token → Prop}

theorem manyWhile {ε : Type} {more : Token → Bool} {item : EStateM ε Reading α}
    (each : Moves true (more · = true) item) : Moves false P (manyWhile more item) :=
  fun r _ => (manyWhile_rounds each r).moved each

theorem separated {item : Rule α} (each : Moves true Any item) : Moves true P (separated item) :=
  (each.imp fun _ _ => trivial).lead fun _ =>
    (manyWhile ((take (by simp)).lead fun _ => each.weaken)).follow fun _ => pure _

theorem toRule {rule : Total α} (moves : Moves b P rule) : Moves b P rule.toRule := by
  intro r start
  have moved := moves r start
  unfold Total.toRule
  cases hrule : rule r with
  | error e => cases e
  | ok a next =>
    rw [hrule] at moved
    cases moved with
    | ok onward => exact .ok onward

/-- A rejection that took nothing is where recovery moves on. -/
theorem attempt {recover : List Lexeme → List Lexeme} {item : Rule α} (each : Moves true P item)
    (forward : ∀ ls, Onward false ls (recover ls))
    (advance : ∀ l ls, P l.token → Onward true (l :: ls) (recover (l :: ls)))
    (inside : ¬ P .eof) : Moves true P (attempt recover item) := by
  intro r start
  have moved := each r start
  unfold Grammar.attempt
  cases hitem : item r with
  | ok a next =>
    rw [hitem] at moved
    cases moved with
    | ok onward => exact .ok onward
  | error e next =>
    rw [hitem] at moved
    cases moved with
    | error onward =>
    obtain ⟨taken, parts, noEnd, -⟩ := onward
    refine .ok ?_
    cases taken with
    | cons l taken =>
      have some : Onward true r.rest next.rest := ⟨l :: taken, parts, noEnd, nofun⟩
      exact some.trans (forward next.rest)
    | nil =>
      rw [List.nil_append] at parts
      cases hrest : r.rest with
      | nil =>
        have ended : r.token = .eof := by
          unfold Reading.token Reading.current
          rw [hrest]
          rfl
        exact absurd (ended ▸ start) inside
      | cons l ls =>
        have own : r.token = l.token := by
          unfold Reading.token Reading.current
          rw [hrest]
          rfl
        rw [← parts, hrest]
        exact advance l ls (own ▸ start)

/-! ## Names, types and literals -/

theorem identifier : Moves true P identifier := by
  refine look fun t _ => ?_
  cases t with
  | word text =>
    exact ite (fun _ => expected _) fun _ => (take_of (by simp)).lead fun _ => pure _
  | number | string | mark | eof => exact expected _

theorem qualifiedNameWith (comments : String) : Moves true P (qualifiedNameWith comments) :=
  start fun first => identifier.lead fun _ =>
    (manyWhile ((take (by simp)).lead fun _ => identifier.weaken)).follow fun _ =>
      (spanFrom first).follow fun _ => pure _

theorem qualifiedName : Moves true P qualifiedName :=
  start fun _ => qualifiedNameWith _

theorem annotation : Moves true (fun t => decide (t = .mark .at) = true) annotation := by
  refine glance fun first opening => (take_of ?_).lead fun _ => look fun t _ => ?_
  · rw [of_decide_eq_true opening]
    simp
  cases t with
  | word name =>
    exact (take_of (by simp)).follow fun _ => (spanFrom first).follow fun _ => reported _
  | number | string | mark | eof => exact expected _

theorem annotations : Moves false P annotations :=
  (manyWhile annotation).follow fun _ => pure _

theorem typeParams {type : Rule TypeExpr} (each : Moves true Any type) :
    Moves false P (typeParams type) :=
  (accept (by simp)).follow fun _ => ite
    (fun _ => ((separated each).lead fun _ => (expect (by simp)).follow fun _ => pure _).weaken)
    fun _ => pure _

theorem arrayMark : Moves false P arrayMark :=
  (accept (by simp)).follow fun _ => ite (fun _ => (expect (by simp)).follow fun _ => pure _)
    fun _ => pure _

theorem typeWithin (depth : Nat) : Moves true P (typeWithin depth) := by
  induction depth generalizing P with
  | zero => exact expected _
  | succ depth ih =>
    exact start fun first => annotations.follow fun _ => qualifiedName.lead fun _ =>
      (typeParams ih).follow fun _ => arrayMark.follow fun _ =>
        (spanFrom first).follow fun _ => pure _

theorem typeExpr : Moves true P typeExpr := fun r => typeWithin r.rest.length r

theorem literal : Moves true P literal := by
  refine glance fun l _ => ?_
  generalize l.token = t
  cases t with
  | number text => exact (take_of (by simp)).lead fun _ => reported _
  | string quoted => exact (take_of (by simp)).lead fun _ => reported _
  | word | mark | eof => exact expected _

/-! ## Members -/

theorem defaultValue : Moves false P defaultValue :=
  (accept (by simp)).follow fun _ => ite (fun _ => literal.follow fun _ => pure _) fun _ => pure _

theorem field : Moves true P field :=
  start fun first => typeExpr.lead fun _ => identifier.follow fun _ => defaultValue.follow fun _ =>
    (expect (by simp)).follow fun _ => (spanFrom first).follow fun _ => pure _

theorem constant : Moves true P constant :=
  start fun first => (expect (by simp)).lead fun _ => typeExpr.follow fun _ =>
    identifier.follow fun _ => (expect (by simp)).follow fun _ => literal.follow fun _ =>
      (expect (by simp)).follow fun _ => (spanFrom first).follow fun _ => pure _

theorem direction : Moves false P direction := by
  refine look fun t _ => ?_
  cases t with
  | word text =>
    dsimp only
    cases Direction.ofKeyword? text with
    | some d => exact (take_of (by simp)).follow fun _ => pure _
    | none => exact pure _
  | number | string | mark | eof => exact pure _

theorem argument : Moves true P argument :=
  start fun first => annotations.follow fun _ => direction.follow fun _ =>
    typeExpr.lead fun _ => identifier.follow fun _ => (spanFrom first).follow fun _ => pure _

theorem argumentList : Moves true P argumentList := by
  refine (expect (by simp)).lead fun _ => look fun t _ => ?_
  exact ite (fun _ => (pure _).follow fun _ => (expect (by simp)).follow fun _ => pure _)
    fun _ => (separated argument).follow fun _ => (expect (by simp)).follow fun _ => pure _

theorem methodId : Moves false P methodId := by
  refine (accept (by simp)).follow fun _ => ite (fun _ => look fun t _ => ?_) fun _ => pure _
  cases t with
  | number text =>
    dsimp only
    cases Text.decimal? text with
    | some n => exact (take_of (by simp)).follow fun _ => pure _
    | none => exact reject _
  | word | string | mark | eof => exact expected _

theorem method : Moves true P method :=
  start fun first => annotations.follow fun _ => (accept (by simp)).follow fun _ =>
    typeExpr.lead fun _ => identifier.follow fun _ => argumentList.follow fun _ =>
      methodId.follow fun _ => (expect (by simp)).follow fun _ =>
        (spanFrom first).follow fun _ => pure _

theorem member : Moves true P member :=
  look fun _ _ => ite (fun _ => constant.lead fun _ => pure _)
    fun _ => method.lead fun _ => pure _

/-! ## Declarations and files -/

theorem attemptMember {item : Rule α} (each : Moves true (inBody · = true) item) :
    Moves true (inBody · = true) (Grammar.attempt afterMember item) :=
  attempt each (afterMemberFrom_onward 0) (fun _ ls inside => afterMember_advances inside ls)
    (by simp [inBody])

theorem body {item : Rule α} (each : Moves true (inBody · = true) item) :
    Moves true P (body item) :=
  (toRule (manyWhile (attemptMember each))).follow fun _ =>
    (expect (by simp)).lead fun _ => pure _

theorem parcelable (first : Lexeme) (package : List String) :
    Moves true P (parcelable first package) := by
  refine (expect (by simp)).lead fun _ => (qualifiedNameWith _).follow fun _ => ?_
  refine (accept (by simp)).follow fun _ => ite ?_ ?_
  · exact fun _ => (spanFrom first).follow fun _ => pure _
  refine fun _ => (accept (by simp)).follow fun _ => ite ?_ ?_
  · refine fun _ => look fun t _ => ?_
    cases t with
    | string quoted =>
      exact (take_of (by simp)).follow fun _ => (expect (by simp)).follow fun _ =>
        (spanFrom first).follow fun _ => pure _
    | word | number | mark | eof => exact expected _
  · refine fun _ => (accept (by simp)).follow fun _ => ite ?_ fun _ => expected _
    exact fun _ => (body field).follow fun _ => (spanFrom first).follow fun _ => pure _

theorem interface (first : Lexeme) (package : List String) :
    Moves true P (interface first package) :=
  (accept (by simp)).follow fun _ => (expect (by simp)).lead fun _ => identifier.follow fun _ =>
    (expect (by simp)).follow fun _ => (body member).follow fun _ =>
      (spanFrom first).follow fun _ => pure _

theorem declaration (package : List String) : Moves true P (declaration package) := by
  refine start fun first => annotations.follow fun _ => look fun t _ => ite ?_ ?_
  · exact fun _ => (parcelable first package).lead fun _ => pure _
  · refine fun _ => ite ?_ ?_
    · exact fun _ => (interface first package).lead fun _ => pure _
    · exact fun _ => (expected _).lead fun _ => pure _

theorem importStatement : Moves true P importStatement :=
  start fun first => (expect (by simp)).lead fun _ => qualifiedName.follow fun _ =>
    (expect (by simp)).follow fun _ => (spanFrom first).follow fun _ => pure _

theorem item (package : List String) : Moves true P (item package) :=
  look fun _ _ => ite (fun _ => importStatement.lead fun _ => pure _)
    fun _ => (declaration package).lead fun _ => pure _

theorem packageStatement : Moves true P packageStatement :=
  (expect (by simp)).lead fun _ => qualifiedName.follow fun _ =>
    (expect (by simp)).follow fun _ => pure _

theorem attemptDeclaration {item : Rule α} (each : Moves true (· ≠ .eof) item) :
    Moves true (· ≠ .eof) (Grammar.attempt afterDeclaration item) :=
  attempt each (afterDeclarationFrom_onward 0 false)
    (fun _ ls inside => afterDeclaration_advances inside ls) (by simp)

theorem packageClause : Moves false P packageClause := by
  intro r start
  unfold Grammar.packageClause
  split
  next opening =>
    exact (attemptDeclaration packageStatement).weaken r (by simp [opening])
  · exact .ok (.refl r.rest)

end Moves

/-! ## Types without a bound on their depth -/

/-- A type whose parameters are read by `param`. -/
def typeOver (param : Rule TypeExpr) : Rule TypeExpr := do
  let first ← current
  let annotations ← annotations
  let name ← qualifiedName
  let params ← typeParams param
  let isArray ← arrayMark
  let head := TypeHead.fresh (← spanFrom first) name.dotName isArray first.comments annotations
  return ⟨head, params⟩

/-- The rules do the same where no more than `n` lexemes are left. -/
def Agree {ε α : Type} (n : Nat) (x y : EStateM ε Reading α) : Prop :=
  ∀ r, r.rest.length ≤ n → x r = y r

namespace Agree

variable {ε α β : Type} {n : Nat} {b : Bool} {x y : EStateM ε Reading α}
  {f g : α → EStateM ε Reading β}

theorem refl (x : EStateM ε Reading α) : Agree n x x := fun _ _ => rfl

theorem bind (moves : Moves b Any x) (first : Agree n x y) (next : ∀ a, Agree n (f a) (g a)) :
    Agree n (x >>= f) (y >>= g) := by
  intro r few
  have moved := moves r trivial
  have same := first r few
  cases h : x r with
  | error e mid => rw [bind_of_error h, bind_of_error (same ▸ h)]
  | ok a mid =>
    rw [h] at moved
    obtain ⟨onward⟩ := moved
    rw [bind_of_ok h, bind_of_ok (same ▸ h)]
    exact next a mid (Nat.le_trans onward.length_le few)

/-- After a step that takes a lexeme, one less is left. -/
theorem lead (moves : Moves true Any x) (next : ∀ a, Agree n (f a) (g a)) :
    Agree (n + 1) (x >>= f) (x >>= g) := by
  intro r few
  have moved := moves r trivial
  cases h : x r with
  | error e mid => rw [bind_of_error h, bind_of_error h]
  | ok a mid =>
    rw [h] at moved
    obtain ⟨onward⟩ := moved
    rw [bind_of_ok h, bind_of_ok h]
    exact next a mid (Nat.le_of_lt_succ (Nat.lt_of_lt_of_le onward.length_lt few))

theorem ite {p : Prop} [Decidable p] {x' y' : EStateM ε Reading α} (yes : Agree n x y)
    (no : Agree n x' y') : Agree n (if p then x else x') (if p then y else y') := by
  split
  · exact yes
  · exact no

theorem manyWhile {more : Token → Bool} (each : Agree n x y) :
    Agree n (manyWhile more x) (manyWhile more y) := by
  intro r few
  induction hn : r.rest.length using Nat.strongRecOn generalizing r with
  | ind k ih =>
    rw [Grammar.manyWhile, Grammar.manyWhile, each r few]
    split
    · cases y r with
      | error e next => rfl
      | ok a next =>
        dsimp only
        split
        next shorter =>
          rw [ih next.rest.length (hn ▸ shorter) next (by omega) rfl]
        · rfl
    · rfl

theorem separated {item item' : Rule α} (moves : Moves true Any item) (each : Agree n item item') :
    Agree n (separated item) (separated item') := by
  have rest : Agree n (do take; item) (do take; item') := by
    intro r few
    refine each r.take (Nat.le_trans ?_ few)
    obtain ⟨ls, previous, notes⟩ := r
    cases ls <;> simp [Reading.take]
  refine bind moves each fun _ => bind (Moves.manyWhile ?_) (manyWhile rest) fun _ => refl _
  exact (Moves.take (by simp)).lead fun _ => moves.weaken

theorem typeOver {item item' : Rule TypeExpr} (moves : Moves true Any item)
    (each : Agree n item item') : Agree (n + 1) (typeOver item) (typeOver item') := by
  have params : Agree n (typeParams item) (typeParams item') :=
    bind (Moves.accept (by simp)) (refl _) fun _ => ite
      (bind (Moves.separated moves) (separated moves each) fun _ => refl _) (refl _)
  refine bind (Moves.start fun _ => Moves.pure _) (refl current) fun first => ?_
  refine bind Moves.annotations (refl _) fun _ => lead Moves.qualifiedName fun _ => ?_
  exact bind (Moves.typeParams moves) params fun _ => refl _

end Agree

/-- No type starts where nothing is left. -/
theorem typeWithin_nil (depth : Nat) : Agree 0 (typeWithin 0) (typeWithin depth) := by
  intro r few
  obtain ⟨ls, previous, notes⟩ := r
  obtain rfl := List.eq_nil_of_length_eq_zero (Nat.le_zero.1 few)
  cases depth with
  | zero => rfl
  | succ depth =>
    have none : annotations ⟨[], previous, notes⟩ = .ok (.ofList []) ⟨[], previous, notes⟩ := by
      refine bind_of_ok (a := []) ?_
      unfold manyWhile
      exact if_neg (by simp [Reading.token, Reading.current, Lexeme.eof])
    change _ = (annotations >>= _) ⟨[], previous, notes⟩
    rw [bind_of_ok none]
    rfl

theorem typeWithin_agree {n depth : Nat} (enough : n ≤ depth) :
    Agree n (typeWithin n) (typeWithin depth) := by
  induction n generalizing depth with
  | zero => exact typeWithin_nil depth
  | succ n ih =>
    obtain ⟨more, rfl⟩ := Nat.exists_eq_add_of_lt enough
    exact .typeOver (Moves.typeWithin n) (ih (Nat.le_add_right n more))

/-- A type is read as if there were no bound on its depth. -/
theorem typeExpr_eq : typeExpr = typeOver typeExpr := by
  funext r
  have own : Agree r.rest.length (typeWithin r.rest.length) typeExpr :=
    fun s few => (typeWithin_agree few s (Nat.le_refl _)).symm
  have one : typeWithin r.rest.length r = typeWithin (r.rest.length + 1) r :=
    typeWithin_agree (Nat.le_succ _) r (Nat.le_refl _)
  exact one.trans (Agree.typeOver (Moves.typeWithin _) own r (Nat.le_succ _))

/-! ## Files -/

/-- The reading stands at a lexeme of `ls` that no end of the file precedes. -/
def Within (ls : List Lexeme) (r : Reading) : Prop := Onward false ls r.rest ∧ r.rest ≠ []

/-- What follows the members of a body. -/
def bodyEnd {α : Type} (found : List (Option α)) : Rule (List α) := do
  expect (.mark .closeBrace)
  return found.filterMap id

/-- The loop is ended by its test or by a rejection and by nothing else. -/
def Progresses {ε α : Type} (more : Token → Bool) (item : EStateM ε Reading α) : Prop :=
  ∀ r, Rounds more item r (manyWhile more item r)

/-- A loop of attempts comes to its end among the lexemes it started in. -/
theorem attempts_end {α : Type} {more : Token → Bool} {item : Total α}
    (each : Moves true (more · = true) item) {ls : List Lexeme}
    (closed : ∃ l ∈ ls, l.token = .eof) {r : Reading} (onward : Onward false ls r.rest) :
    ∃ found last, manyWhile more item r = .ok found last ∧
      Rounds more item r (.ok found last) ∧ Within ls last ∧ more last.token = false := by
  have rounds := manyWhile_rounds each r
  cases h : manyWhile more item r with
  | error e => cases e
  | ok found last =>
    rw [h] at rounds
    obtain ⟨further⟩ := rounds.moved each
    have inside := onward.trans further
    obtain ⟨l, member, -⟩ := inside.keeps_end closed
    exact ⟨found, last, rfl, rounds, ⟨inside, List.ne_nil_of_mem member⟩, rounds.stopped⟩

theorem body_ends {α : Type} {item : Rule α} (each : Moves true (inBody · = true) item)
    {ls : List Lexeme} (closed : ∃ l ∈ ls, l.token = .eof) {r : Reading}
    (onward : Onward false ls r.rest) :
    ∃ found last, Rounds inBody (attempt afterMember item) r (.ok found last) ∧ Within ls last ∧
      body item r = bodyEnd found last := by
  obtain ⟨found, last, run, rounds, within, -⟩ :=
    attempts_end (Moves.attemptMember each) closed onward
  refine ⟨found, last, rounds, within, ?_⟩
  have loop : Total.toRule (manyWhile inBody (attempt afterMember item)) r = .ok found last := by
    unfold Total.toRule
    rw [run]
  exact bind_of_ok loop

/-- Any lexemes that the end of the file closes are read to the first end of the file. The loop over
a file and those over the bodies in it run round by round, each round moves on among the lexemes or
is the last one, neither recovery passes the end of the file, and the same holds of the loops over
names, annotations, parameters and arguments and of the nesting of types. -/
theorem reading_progresses {ls : List Lexeme} (closed : ls.getLast?.map Lexeme.token = some .eof) :
    (∃ package mid found last,
      packageClause ⟨ls, .nowhere, []⟩ = .ok package mid ∧ Within ls mid ∧
        Rounds (· ≠ .eof)
          (attempt afterDeclaration (item ((package.map QualifiedName.terms).getD [])))
          mid (.ok found last) ∧
        Within ls last ∧ last.token = .eof ∧
        SourceFile.ofLexemes ls =
          (⟨package, (found.filterMap id).filterMap Item.statement?,
            (found.filterMap id).filterMap Item.declaration?⟩, last.notes)) ∧
      (∀ r, Within ls r →
        (∃ found last, Rounds inBody (attempt afterMember field) r (.ok found last) ∧
          Within ls last ∧ body field r = bodyEnd found last) ∧
        ∃ found last, Rounds inBody (attempt afterMember member) r (.ok found last) ∧
          Within ls last ∧ body member r = bodyEnd found last) ∧
      (∀ ms, Onward false ls ms →
        Onward false ms (afterDeclaration ms) ∧ Onward false ms (afterMember ms)) ∧
      Progresses (· = .mark .dot) (do take; identifier) ∧
      Progresses (· = .mark .at) annotation ∧
      Progresses (· = .mark .comma) (do take; typeExpr) ∧
      Progresses (· = .mark .comma) (do take; argument) ∧
      typeExpr = typeOver typeExpr := by
  have ends : ∃ l ∈ ls, l.token = .eof := by
    obtain ⟨l, last, token⟩ := Option.map_eq_some_iff.1 closed
    exact ⟨l, List.mem_of_getLast? last, token⟩
  refine ⟨?_, ?_, ?_, ?_, ?_, ?_, ?_, typeExpr_eq⟩
  · have moved := Moves.packageClause (P := Any) ⟨ls, .nowhere, []⟩ trivial
    cases hpackage : packageClause ⟨ls, .nowhere, []⟩ with
    | error e => cases e
    | ok package mid =>
      rw [hpackage] at moved
      obtain ⟨onward⟩ := moved
      obtain ⟨l, member, -⟩ := onward.keeps_end ends
      have each : Moves true (fun t => decide (t ≠ .eof) = true)
          (attempt afterDeclaration (item ((package.map QualifiedName.terms).getD []))) :=
        (Moves.attemptDeclaration (Moves.item _)).imp (by simp)
      obtain ⟨found, last, run, rounds, within, stopped⟩ := attempts_end each ends onward
      refine ⟨package, mid, found, last, rfl, ⟨onward, List.ne_nil_of_mem member⟩, rounds, within,
        by simpa using stopped, ?_⟩
      have all : sourceFile ⟨ls, .nowhere, []⟩ = .ok _ last :=
        (bind_of_ok hpackage).trans (bind_of_ok run)
      unfold SourceFile.ofLexemes
      rw [all]
  · exact fun r within => ⟨body_ends Moves.field ends within.1, body_ends Moves.member ends within.1⟩
  · exact fun ms _ => ⟨afterDeclarationFrom_onward 0 false ms, afterMemberFrom_onward 0 ms⟩
  · exact manyWhile_rounds ((Moves.take (by simp)).lead fun _ => Moves.identifier.weaken)
  · exact manyWhile_rounds Moves.annotation
  · exact manyWhile_rounds ((Moves.take (by simp)).lead fun _ => Moves.typeExpr.weaken)
  · exact manyWhile_rounds ((Moves.take (by simp)).lead fun _ => Moves.argument.weaken)

/-- Stray parentheses and braces, and a body that is never closed. -/
def unclosed : List Lexeme :=
  [.word "interface", .word "I", .mark .openBrace, .word "foo", .mark .closeParen,
    .mark .closeParen, .mark .semicolon, .mark .closeBrace, .mark .closeBrace, .mark .semicolon,
    .word "parcelable", .word "P", .mark .openBrace, .word "int", .mark .semicolon, .eof].map
    fun t => ⟨t, .nowhere, ""⟩

theorem unclosed_progresses :
    unclosed.getLast?.map Lexeme.token = some .eof ∧
      (SourceFile.ofLexemes unclosed).2.map Diagnostic.message =
        ["syntax error: expected identifier, got ')'",
          "syntax error: expected 'parcelable' or 'interface', got '\x7d'",
          "syntax error: expected 'parcelable' or 'interface', got ';'",
          "syntax error: expected identifier, got ';'",
          "syntax error: expected '\x7d', got end of file"] ∧
      ∃ last, Within unclosed last ∧ last.token = .eof ∧
        (SourceFile.ofLexemes unclosed).2 = last.notes := by
  have closed : unclosed.getLast?.map Lexeme.token = some .eof := by decide
  obtain ⟨⟨package, mid, found, last, -, -, -, within, ended, all⟩, -⟩ :=
    reading_progresses closed
  refine ⟨closed, ?_, last, within, ended, congrArg Prod.snd all⟩
  decide +kernel

end IdlFrontEnd.Grammar
