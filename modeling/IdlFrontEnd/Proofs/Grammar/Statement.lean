import IdlFrontEnd.Proofs.Grammar.Progress
import IdlFrontEnd.Proofs.Grammar.Reading

/-!
# Reading one statement

No rule for a part of a member takes a semicolon, and the rule for the member takes one only as its
last lexeme. So what stands behind a statement decides nothing about it: the rule gives the same
value or the same rejection, and reports the same, whether it reads the statement alone or with more
lexemes behind it, and a rejected statement still has its semicolon ahead. The place of the lexeme
before the statement is not asked for either, since a span is closed only after a lexeme was taken.
-/
namespace IdlFrontEnd.Grammar

/-- These lexemes end in a semicolon and have no other one. -/
inductive IsStatement : List Lexeme → Prop
  | last {l : Lexeme} (semicolon : l.token = .mark .semicolon) : IsStatement [l]
  | cons {l : Lexeme} {ls : List Lexeme} (other : l.token ≠ .mark .semicolon)
      (others : IsStatement ls) : IsStatement (l :: ls)

/-- Lexemes with a semicolon start with a statement. -/
theorem exists_statement {ls : List Lexeme} (semicolon : ∃ l ∈ ls, l.token = .mark .semicolon) :
    ∃ statement behind, ls = statement ++ behind ∧ IsStatement statement := by
  induction ls with
  | nil =>
    obtain ⟨l, member, -⟩ := semicolon
    cases member
  | cons l ls ih =>
    by_cases here : l.token = .mark .semicolon
    · exact ⟨[l], ls, rfl, .last here⟩
    · obtain ⟨m, member, token⟩ := semicolon
      have later : m ∈ ls := (List.mem_cons.1 member).resolve_left fun same => here (same ▸ token)
      obtain ⟨statement, behind, rfl, derived⟩ := ih ⟨m, later, token⟩
      exact ⟨l :: statement, behind, rfl, .cons here derived⟩

section
variable (behind : List Lexeme) (earlier : List Diagnostic)

/-- Both readings stand at the same lexeme of one statement. In the second one there are more lexemes
behind it and reports from before it. If `inside`, lexemes of the statement were taken. -/
structure Beside (inside : Bool) (r r' : Reading) : Prop where
  statement : IsStatement r.rest
  rest : r'.rest = r.rest ++ behind
  previous : inside = true → r'.previous = r.previous
  notes : r'.notes = earlier ++ r.notes

/-- Two results with the same value or error that leave such readings. -/
inductive Parallel {ε α : Type} (inside : Bool) :
    EStateM.Result ε Reading α → EStateM.Result ε Reading α → Prop
  | ok {a : α} {next next' : Reading} (beside : Beside behind earlier inside next next') :
      Parallel inside (.ok a next) (.ok a next')
  | error {e : ε} {next next' : Reading} (beside : Beside behind earlier false next next') :
      Parallel inside (.error e next) (.error e next')

/-- From a token in `P` on, the rule does the same in both readings and stays in the statement. -/
def Stays {ε α : Type} (b c : Bool) (P : Token → Prop) (rule : EStateM ε Reading α) : Prop :=
  ∀ r r', Beside behind earlier b r r' → P r.token → Parallel behind earlier c (rule r) (rule r')

end

section
variable {behind : List Lexeme} {earlier : List Diagnostic} {b c d : Bool} {r r' : Reading}

namespace Beside

theorem weaken (beside : Beside behind earlier b r r') : Beside behind earlier false r r' :=
  ⟨beside.statement, beside.rest, nofun, beside.notes⟩

/-- Where the place is known, it is known however little is asked for. -/
theorem of_inside (beside : Beside behind earlier true r r') : Beside behind earlier b r r' :=
  ⟨beside.statement, beside.rest, fun _ => beside.previous rfl, beside.notes⟩

theorem current (beside : Beside behind earlier b r r') : r'.current = r.current := by
  have statement := beside.statement
  unfold Reading.current
  rw [beside.rest]
  generalize r.rest = ls at statement
  cases statement <;> rfl

theorem token (beside : Beside behind earlier b r r') : r'.token = r.token :=
  congrArg Lexeme.token beside.current

theorem take (beside : Beside behind earlier b r r') (other : r.token ≠ .mark .semicolon) :
    Beside behind earlier true r.take r'.take := by
  obtain ⟨statement, rest, -, notes⟩ := beside
  obtain ⟨ls, previous, told⟩ := r
  obtain ⟨ls', previous', told'⟩ := r'
  dsimp only at statement rest
  subst rest
  cases statement with
  | last semicolon => exact absurd semicolon other
  | cons _ others => exact ⟨others, rfl, fun _ => rfl, notes⟩

end Beside

section
variable {ε α : Type} {result : EStateM.Result ε Reading α}

theorem Parallel.of_ok {a : α} {next : Reading}
    (both : Parallel behind earlier b (.ok a next) result) :
    ∃ next', result = .ok a next' ∧ Beside behind earlier b next next' := by
  cases both with
  | ok beside => exact ⟨_, rfl, beside⟩

theorem Parallel.of_error {e : ε} {next : Reading}
    (both : Parallel behind earlier b (.error e next) result) :
    ∃ next', result = .error e next' ∧ Beside behind earlier false next next' := by
  cases both with
  | error beside => exact ⟨_, rfl, beside⟩

end

namespace Stays

variable {ε α β : Type} {P Q : Token → Prop} {x y : EStateM ε Reading α}
  {f : α → EStateM ε Reading β}

/-! ## Combinators -/

theorem imp (stays : Stays behind earlier b c P x) (fewer : ∀ t, Q t → P t) :
    Stays behind earlier b c Q x :=
  fun r r' beside start => stays r r' beside (fewer _ start)

/-- A rule that does not ask for the place before it does not care whether it is known. -/
theorem anyhow (stays : Stays behind earlier false c P x) : Stays behind earlier b c P x :=
  fun r r' beside start => stays r r' beside.weaken start

theorem weaken (stays : Stays behind earlier b true P x) : Stays behind earlier b c P x := by
  intro r r' beside start
  have both := stays r r' beside start
  cases h : x r with
  | ok a next =>
    rw [h] at both
    obtain ⟨next', h', between⟩ := both.of_ok
    rw [h']
    exact .ok between.of_inside
  | error e next =>
    rw [h] at both
    obtain ⟨next', h', between⟩ := both.of_error
    rw [h']
    exact .error between

theorem bind (first : Stays behind earlier b c P x)
    (next : ∀ a, Stays behind earlier c d Any (f a)) : Stays behind earlier b d P (x >>= f) := by
  intro r r' beside start
  have both := first r r' beside start
  cases h : x r with
  | ok a mid =>
    rw [h] at both
    obtain ⟨mid', h', between⟩ := both.of_ok
    rw [bind_of_ok h, bind_of_ok h']
    exact next a mid mid' between trivial
  | error e mid =>
    rw [h] at both
    obtain ⟨mid', h', between⟩ := both.of_error
    rw [bind_of_error h, bind_of_error h']
    exact .error between

theorem pure (a : α) : Stays behind earlier b b P (Pure.pure a : EStateM ε Reading α) :=
  fun _ _ beside _ => .ok beside

theorem reject (cause : Cause) : Stays behind earlier b c P (reject cause : Rule α) := by
  intro r r' beside _
  unfold Grammar.reject
  rw [beside.current]
  exact .error beside.weaken

theorem expected (wanted : String) : Stays behind earlier b c P (expected wanted : Rule α) := by
  intro r r' beside start
  unfold Grammar.expected
  rw [beside.token]
  exact reject _ r r' beside start

theorem reported (found : α × List Diagnostic) : Stays behind earlier b b P (reported found) := by
  intro r r' beside _
  refine .ok ⟨beside.statement, beside.rest, beside.previous, ?_⟩
  rw [Reading.report, Reading.report, beside.notes, List.append_assoc]

/-- A span is closed behind a lexeme of the statement. -/
theorem spanFrom (first : Lexeme) : Stays behind earlier true true P (spanFrom first) := by
  intro r r' beside _
  unfold Grammar.spanFrom
  rw [beside.previous rfl]
  exact .ok beside

theorem look {f : Token → Rule β} (next : ∀ t, P t → Stays behind earlier b c (· = t) (f t)) :
    Stays behind earlier b c P (token >>= f) := by
  intro r r' beside start
  rw [token_bind, token_bind, beside.token]
  exact next r.token start r r' beside rfl

theorem glance {f : Lexeme → Rule β}
    (next : ∀ l, P l.token → Stays behind earlier b c (· = l.token) (f l)) :
    Stays behind earlier b c P (current >>= f) := by
  intro r r' beside start
  rw [current_bind, current_bind, beside.current]
  exact next r.current start r r' beside rfl

theorem current : Stays behind earlier b b P current := by
  intro r r' beside _
  unfold Grammar.current
  rw [beside.current]
  exact .ok beside

theorem take (other : ∀ t, P t → t ≠ .mark .semicolon) : Stays behind earlier b true P take :=
  fun _ _ beside start => .ok (beside.take (other _ start))

theorem take_of {t : Token} (other : t ≠ .mark .semicolon) :
    Stays behind earlier b true (· = t) Grammar.take :=
  take fun _ same => same ▸ other

theorem ite {p : Prop} [Decidable p] (yes : p → Stays behind earlier b c P x)
    (no : ¬ p → Stays behind earlier b c P y) :
    Stays behind earlier b c P (if p then x else y) := by
  split
  next holds => exact yes holds
  next fails => exact no fails

theorem accept {t : Token} (other : t ≠ .mark .semicolon) :
    Stays behind earlier b b P (accept t) :=
  look fun _ _ => ite (fun same => (take_of (same ▸ other)).weaken.bind fun _ => pure true)
    fun _ => pure false

theorem expect {t : Token} (other : t ≠ .mark .semicolon) :
    Stays behind earlier b true P (expect t) :=
  look fun _ _ => ite (fun same => take_of (same ▸ other)) fun _ => expected _

theorem manyWhile {more : Token → Bool} {item : EStateM ε Reading α}
    (each : Stays behind earlier false true (more · = true) item) :
    Stays behind earlier b b P (manyWhile more item) := by
  intro r r' beside start
  clear start
  induction hn : r.rest.length using Nat.strongRecOn generalizing b r r' with
  | ind n ih =>
    rw [Grammar.manyWhile, Grammar.manyWhile, beside.token]
    split
    next go =>
      have both := each r r' beside.weaken go
      cases h : item r with
      | error e next =>
        rw [h] at both
        obtain ⟨next', h', between⟩ := both.of_error
        rw [h']
        exact .error between
      | ok a next =>
        rw [h] at both
        obtain ⟨next', h', between⟩ := both.of_ok
        have shorter : next'.rest.length < r'.rest.length ↔
            next.rest.length < r.rest.length := by
          rw [between.rest, beside.rest, List.length_append, List.length_append]
          omega
        rw [h']
        dsimp only
        simp only [shorter]
        split
        next fewer =>
          have others := ih next.rest.length (hn ▸ fewer) next next' between rfl
          cases hrest : Grammar.manyWhile more item next with
          | ok as last =>
            rw [hrest] at others
            obtain ⟨last', hrest', ended⟩ := others.of_ok
            rw [hrest']
            exact .ok ended.of_inside
          | error e last =>
            rw [hrest] at others
            obtain ⟨last', hrest', ended⟩ := others.of_error
            rw [hrest']
            exact .error ended
        · exact .ok between.of_inside
    · exact .ok beside

theorem separated {item : Rule α} (each : Stays behind earlier false true Any item) :
    Stays behind earlier b true P (separated item) :=
  (each.anyhow.imp fun _ _ => trivial).bind fun _ =>
    (manyWhile ((take (by simp)).bind fun _ => each.anyhow)).bind fun _ => pure _

/-! ## Names, types and literals -/

theorem identifier : Stays behind earlier b true P identifier := by
  refine look fun t _ => ?_
  cases t with
  | word text =>
    exact ite (fun _ => expected _) fun _ => (take_of (by simp)).bind fun _ => pure _
  | number | string | mark | eof => exact expected _

theorem qualifiedNameWith (comments : String) :
    Stays behind earlier b true P (qualifiedNameWith comments) :=
  current.bind fun first => identifier.bind fun _ =>
    (manyWhile ((take (by simp)).bind fun _ => identifier)).bind fun _ =>
      (spanFrom first).bind fun _ => pure _

theorem qualifiedName : Stays behind earlier b true P qualifiedName :=
  current.bind fun _ => qualifiedNameWith _

theorem annotation :
    Stays behind earlier b true (fun t => decide (t = .mark .at) = true) annotation := by
  refine glance fun first opening => (take_of ?_).bind fun _ => look fun t _ => ?_
  · rw [of_decide_eq_true opening]
    simp
  cases t with
  | word name =>
    exact (take_of (by simp)).bind fun _ => (spanFrom first).bind fun _ => reported _
  | number | string | mark | eof => exact expected _

theorem annotations : Stays behind earlier b b P annotations :=
  (manyWhile annotation).bind fun _ => pure _

theorem typeParams {type : Rule TypeExpr} (each : Stays behind earlier false true Any type) :
    Stays behind earlier b b P (typeParams type) :=
  (accept (by simp)).bind fun _ => ite
    (fun _ => ((separated each).bind fun _ => (expect (by simp)).bind fun _ => pure _).weaken)
    fun _ => pure _

theorem arrayMark : Stays behind earlier b b P arrayMark :=
  (accept (by simp)).bind fun _ => ite
    (fun _ => ((expect (by simp)).bind fun _ => pure _).weaken) fun _ => pure _

theorem typeWithin (depth : Nat) : Stays behind earlier b true P (typeWithin depth) := by
  induction depth generalizing b P with
  | zero => exact expected _
  | succ depth ih =>
    exact current.bind fun first => annotations.bind fun _ => qualifiedName.bind fun _ =>
      (typeParams ih).bind fun _ => arrayMark.bind fun _ =>
        (spanFrom first).bind fun _ => pure _

/-- The bounds on the depth differ, but neither is met. -/
theorem typeExpr : Stays behind earlier b true P typeExpr := by
  intro r r' beside start
  have enough : r.rest.length ≤ r'.rest.length := by
    rw [beside.rest, List.length_append]
    omega
  have deeper : Grammar.typeExpr r = Grammar.typeWithin r'.rest.length r :=
    typeWithin_agree enough r (Nat.le_refl _)
  rw [deeper]
  exact typeWithin r'.rest.length r r' beside start

theorem literal : Stays behind earlier b true P literal := by
  refine glance fun l _ => ?_
  generalize l.token = t
  cases t with
  | number text => exact (take_of (by simp)).bind fun _ => reported _
  | string quoted => exact (take_of (by simp)).bind fun _ => reported _
  | word | mark | eof => exact expected _

/-! ## Parts of members -/

theorem defaultValue : Stays behind earlier b b P defaultValue :=
  (accept (by simp)).bind fun _ => ite (fun _ => (literal.bind fun _ => pure _).weaken)
    fun _ => pure _

theorem direction : Stays behind earlier b b P direction := by
  refine look fun t _ => ?_
  cases t with
  | word text =>
    dsimp only
    cases Direction.ofKeyword? text with
    | some d => exact ((take_of (by simp)).bind fun _ => pure _).weaken
    | none => exact pure _
  | number | string | mark | eof => exact pure _

theorem argument : Stays behind earlier b true P argument :=
  current.bind fun first => annotations.bind fun _ => direction.bind fun _ =>
    typeExpr.bind fun _ => identifier.bind fun _ => (spanFrom first).bind fun _ => pure _

theorem argumentList : Stays behind earlier b true P argumentList := by
  refine (expect (by simp)).bind fun _ => look fun t _ => ?_
  exact ite (fun _ => (pure _).bind fun _ => (expect (by simp)).bind fun _ => pure _)
    fun _ => (separated argument).bind fun _ => (expect (by simp)).bind fun _ => pure _

theorem methodId : Stays behind earlier b b P methodId := by
  refine (accept (by simp)).bind fun _ => ite (fun _ => look fun t _ => ?_) fun _ => pure _
  cases t with
  | number text =>
    dsimp only
    cases Text.decimal? text with
    | some n => exact ((take_of (by simp)).bind fun _ => pure _).weaken
    | none => exact reject _
  | word | string | mark | eof => exact expected _

end Stays

end

/-! ## Whole statements -/

section
variable (behind : List Lexeme) (earlier : List Diagnostic)

/-- Two results of reading a statement: both readings are behind it and gave the same value, or both
rejected it and its semicolon is still ahead. -/
inductive Finished {α : Type} :
    EStateM.Result Rejection Reading α → EStateM.Result Rejection Reading α → Prop
  | ok {a : α} {place : Location} {notes : List Diagnostic} :
      Finished (.ok a ⟨[], place, notes⟩) (.ok a ⟨behind, place, earlier ++ notes⟩)
  | error {e : Rejection} {next next' : Reading}
      (beside : Beside behind earlier false next next') :
      Finished (.error e next) (.error e next')

/-- The rule does the same in both readings and takes the whole statement if it gives a value. -/
def Finishes {α : Type} (b : Bool) (rule : Rule α) : Prop :=
  ∀ r r', Beside behind earlier b r r' → Finished behind earlier (rule r) (rule r')

end

namespace Finishes

variable {behind : List Lexeme} {earlier : List Diagnostic} {b c : Bool} {α β : Type}

theorem bind {x : Rule α} {f : α → Rule β} (first : Stays behind earlier b c Any x)
    (next : ∀ a, Finishes behind earlier c (f a)) : Finishes behind earlier b (x >>= f) := by
  intro r r' beside
  have both := first r r' beside trivial
  cases h : x r with
  | ok a mid =>
    rw [h] at both
    obtain ⟨mid', h', between⟩ := both.of_ok
    rw [bind_of_ok h, bind_of_ok h']
    exact next a mid mid' between
  | error e mid =>
    rw [h] at both
    obtain ⟨mid', h', between⟩ := both.of_error
    rw [bind_of_error h, bind_of_error h']
    exact .error between

theorem map {x : Rule α} (finishes : Finishes behind earlier b x) (g : α → β) :
    Finishes behind earlier b (x >>= fun a => pure (g a)) := by
  intro r r' beside
  have both := finishes r r' beside
  generalize hx : x r = result at both
  generalize hx' : x r' = result' at both
  cases both with
  | ok =>
    rw [bind_of_ok hx, bind_of_ok hx']
    exact .ok
  | error between =>
    rw [bind_of_error hx, bind_of_error hx']
    exact .error between

/-- The semicolon at the end, and the span of what it closes. -/
theorem closing (first : Lexeme) (node : Location → α) :
    Finishes behind earlier b (do
      expect (.mark .semicolon)
      return node (← spanFrom first)) := by
  intro r r' beside
  by_cases here : r.token = .mark .semicolon
  · obtain ⟨statement, rest, -, notes⟩ := beside
    obtain ⟨ls, previous, told⟩ := r
    obtain ⟨ls', previous', told'⟩ := r'
    dsimp only at statement rest notes
    subst rest notes
    cases statement with
    | last semicolon =>
      rw [bind_of_ok (expect_present semicolon)]
      change Finished behind earlier _ ((expect _ >>= _) ⟨_ :: behind, previous', earlier ++ told⟩)
      rw [bind_of_ok (expect_present semicolon)]
      exact .ok
    | cons other _ => exact absurd here other
  · have rejects (s : Reading) (other : s.token ≠ .mark .semicolon) :
        expect (.mark .semicolon) s =
          .error ⟨s.current.location, .expected (Token.mark .semicolon).text s.token.text⟩ s := by
      unfold expect
      rw [token_bind, if_neg other]
      rfl
    rw [bind_of_error (rejects r here), bind_of_error (rejects r' (beside.token ▸ here)),
      beside.current, beside.token]
    exact .error beside.weaken

end Finishes

theorem field_finishes (behind : List Lexeme) (earlier : List Diagnostic) :
    Finishes behind earlier false field :=
  .bind Stays.current fun first => .bind Stays.typeExpr fun type =>
    .bind Stays.identifier fun name => .bind Stays.defaultValue fun default =>
      .closing first (Field.mk · type name default)

theorem constant_finishes (behind : List Lexeme) (earlier : List Diagnostic) :
    Finishes behind earlier false constant :=
  .bind Stays.current fun first => .bind (Stays.expect (by simp)) fun _ =>
    .bind Stays.typeExpr fun type => .bind Stays.identifier fun name =>
      .bind (Stays.expect (by simp)) fun _ => .bind Stays.literal fun value =>
        .closing first (Constant.mk · type name value)

theorem method_finishes (behind : List Lexeme) (earlier : List Diagnostic) :
    Finishes behind earlier false method :=
  .bind Stays.current fun first => .bind Stays.annotations fun before =>
    .bind (Stays.accept (by simp)) fun oneway => .bind Stays.typeExpr fun type =>
      .bind Stays.identifier fun name => .bind Stays.argumentList fun arguments =>
        .bind Stays.methodId fun id => .closing first
          (Method.mk · oneway first.comments (withAnnotations type before) name arguments id)

theorem member_finishes (behind : List Lexeme) (earlier : List Diagnostic) :
    Finishes behind earlier false member := by
  intro r r' beside
  unfold member
  rw [token_bind, token_bind, beside.token]
  split
  · exact (constant_finishes behind earlier).map Member.constant r r' beside
  · exact (method_finishes behind earlier).map Member.method r r' beside

end IdlFrontEnd.Grammar
