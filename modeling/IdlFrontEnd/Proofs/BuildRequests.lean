import IdlFrontEnd.Proofs.Build
import IdlFrontEnd.Source.Store

/-!
# Requests in any order

A build may be asked to open a file, to resolve it and to hand its document over as often and in any
order as one likes. Opening and resolving have their turn, which is one phase each, and a request in
its turn takes the build to a later phase. So each of the two is granted at most once, the phases
only move on, and a request out of turn leaves nothing but a report.
-/
namespace IdlFrontEnd

/-- Where a phase stands among all. -/
def Phase.rank : Phase → Nat
  | .ready => 0
  | .scanning => 1
  | .building => 2
  | .deferredRegistration => 3
  | .resolving => 4
  | .done => 5

namespace FileBuild

/-- What a build may be asked for, each time with a context and a source of files of its own. -/
inductive Request where
  | parse (c : Context) (provider : SourceProvider) (path : String)
  | resolve (c : Context)
  | takeDocument

namespace Request

def isParse : Request → Bool
  | .parse .. => true
  | _ => false

def isResolve : Request → Bool
  | .resolve _ => true
  | _ => false

/-- The phase in which the request is granted, if it is not granted in all of them. -/
def turn? : Request → Option Phase
  | .parse .. => some .ready
  | .resolve _ => some .deferredRegistration
  | .takeDocument => none

/-- The request is granted in this phase. -/
def Due (r : Request) (phase : Phase) : Prop := r.turn? = none ∨ r.turn? = some phase

instance (r : Request) (phase : Phase) : Decidable (r.Due phase) :=
  inferInstanceAs (Decidable (_ ∨ _))

end Request

/-- The build after a request, granted or not. -/
def after (b : FileBuild) : Request → FileBuild
  | .parse c provider path => (b.parse c provider path).2.1
  | .resolve c => (b.resolve c).2.1
  | .takeDocument => b.takeDocument.2

def afterAll (b : FileBuild) (rs : List Request) : FileBuild := rs.foldl after b

/-- Those of the requests that are granted when they are made one after the other. -/
def granted (b : FileBuild) : List Request → List Request
  | [] => []
  | r :: rs =>
    if r.Due b.phase then r :: granted (b.after r) rs else granted (b.after r) rs

/-- The request came out of turn: one fault is reported and returned, and nothing else changes. -/
structure Refused (b : FileBuild) (c : Context)
    (answer : Except ParseFailure Unit × FileBuild × Context) : Prop where
  fault : ∃ f : Fatal, answer.1 = .error (.fatal f) ∧ answer.2.2.log = c.log ++ [f.diagnostic] ∧
    f.diagnostic.severity = .fatal
  build : answer.2.1 = b
  registry : answer.2.2.registry = c.registry

theorem refuse_refused (b : FileBuild) (c : Context) (f : Fatal) : Refused b c (b.refuse c f) :=
  ⟨⟨f, rfl, Reporter.diagnostics_emitAll _ _, rfl⟩, rfl, rfl⟩

/-! ## One request -/

/-- A build holds a document only if it has opened its file, and it does not stop while it
resolves. -/
structure Orderly (b : FileBuild) : Prop where
  rests : b.phase ≠ .resolving
  holds : b.document.isSome = true → b.phase = .deferredRegistration ∨ b.phase = .done

theorem Orderly.after {b : FileBuild} (orderly : b.Orderly) (r : Request) : (b.after r).Orderly := by
  cases r with
  | parse c provider path =>
    by_cases turn : b.phase = .ready
    · -- a build that is ready holds nothing, so a document afterwards is that of the file
      have none : b.document.isSome ≠ true := by
        intro some
        rcases orderly.holds some with other | other <;> cases turn.symm.trans other
      rw [FileBuild.after, parse_eq turn]
      cases (c.openFile provider path).1 with
      | unreadable | rejected => exact ⟨nofun, fun some => absurd some none⟩
      | built => exact ⟨nofun, fun _ => .inl rfl⟩
    · rw [FileBuild.after, parse_refused turn]
      exact orderly
  | resolve c =>
    by_cases turn : b.phase = .deferredRegistration
    · rw [FileBuild.after, resolve_eq turn]
      exact ⟨nofun, fun _ => .inr rfl⟩
    · rw [FileBuild.after, resolve_refused turn]
      exact orderly
  | takeDocument => exact ⟨orderly.rests, nofun⟩

/-- A request that is not due leaves the build as it is. -/
theorem after_of_not_due {b : FileBuild} {r : Request} (early : ¬ r.Due b.phase) :
    b.after r = b := by
  unfold Request.Due at early
  cases r with
  | parse c provider path =>
    rw [after, parse_refused fun turn => early (.inr (turn ▸ rfl))]
    rfl
  | resolve c =>
    rw [after, resolve_refused fun turn => early (.inr (turn ▸ rfl))]
    rfl
  | takeDocument => exact absurd (.inl rfl) early

/-- A request in its turn takes the build to a later phase. -/
theorem rank_lt_after {b : FileBuild} {r : Request} (due : r.turn? = some b.phase) :
    b.phase.rank < (b.after r).phase.rank := by
  cases r with
  | parse c provider path =>
    have turn : b.phase = .ready := (Option.some.inj due).symm
    rw [after, parse_eq turn, openedAs_phase, turn]
    cases (c.openFile provider path).1 <;> exact Nat.zero_lt_succ _
  | resolve c =>
    have turn : b.phase = .deferredRegistration := (Option.some.inj due).symm
    rw [after, resolve_eq turn, turn]
    exact (by decide : Phase.deferredRegistration.rank < Phase.done.rank)
  | takeDocument => cases due

theorem rank_le_after (b : FileBuild) (r : Request) : b.phase.rank ≤ (b.after r).phase.rank := by
  by_cases due : r.Due b.phase
  · rcases due with always | due
    · cases r with
      | takeDocument => exact Nat.le_refl _
      | parse | resolve => cases always
    · exact Nat.le_of_lt (rank_lt_after due)
  · exact Nat.le_of_eq (by rw [after_of_not_due due])

/-! ## Many requests -/

theorem Orderly.afterAll {b : FileBuild} (orderly : b.Orderly) (rs : List Request) :
    (b.afterAll rs).Orderly := by
  induction rs generalizing b with
  | nil => exact orderly
  | cons r rs ih => exact ih (orderly.after r)

theorem rank_le_afterAll (b : FileBuild) (rs : List Request) :
    b.phase.rank ≤ (b.afterAll rs).phase.rank := by
  induction rs generalizing b with
  | nil => exact Nat.le_refl _
  | cons r rs ih => exact Nat.le_trans (b.rank_le_after r) (ih (b.after r))

/-- Of the requests that have their turn in one phase at most one is granted, and none if that phase
has passed. -/
theorem countP_granted_le (b : FileBuild) (phase : Phase) (rs : List Request) :
    (b.granted rs).countP (·.turn? = some phase) ≤ if b.phase.rank ≤ phase.rank then 1 else 0 := by
  induction rs generalizing b with
  | nil => exact Nat.zero_le _
  | cons r rs ih =>
    have others := ih (b.after r)
    have onward := b.rank_le_after r
    rw [granted]
    split
    next due =>
      rw [List.countP_cons]
      by_cases own : r.turn? = some phase
      · rcases due with always | due
        · cases always.symm.trans own
        · obtain rfl : phase = b.phase := Option.some.inj (own.symm.trans due)
          have later := rank_lt_after due
          rw [if_neg (by omega)] at others
          rw [if_pos (decide_eq_true own), if_pos (Nat.le_refl _)]
          omega
      · rw [if_neg (by simpa using own)]
        split at others <;> split <;> omega
    · split at others <;> split <;> omega

/-- Opening a file in turn is never refused. -/
theorem parse_not_fatal {b : FileBuild} (turn : b.phase = .ready) (c : Context)
    (provider : SourceProvider) (path : String) (f : Fatal) :
    (b.parse c provider path).1 ≠ .error (.fatal f) := by
  rw [parse_eq turn]
  intro same
  cases opened : (c.openFile provider path).1 with
  | unreadable | rejected =>
    rw [opened] at same
    cases same
  | built file redefined =>
    rw [opened] at same
    cases redefined <;> cases same

theorem resolve_not_fatal {b : FileBuild} (turn : b.phase = .deferredRegistration) (c : Context)
    (f : Fatal) : (b.resolve c).1 ≠ .error (.fatal f) := by
  rw [resolve_eq turn]
  dsimp only
  split <;> nofun

/-- After any requests the phase of a build is none of those it has left and not that of resolving,
and a document is held only from the time the file was opened. At most one of the requests has opened
a file, and at most one has resolved. Whatever is asked next, only a build that is ready opens a file
and only one that has opened its file resolves; any other request to do so is refused, before anything
is read. -/
theorem requests_in_turn (rs : List Request) :
    (∀ more, (fresh.afterAll rs).phase.rank ≤ (fresh.afterAll (rs ++ more)).phase.rank) ∧
      (fresh.afterAll rs).phase ≠ .resolving ∧
      ((fresh.afterAll rs).document.isSome = true →
        (fresh.afterAll rs).phase = .deferredRegistration ∨ (fresh.afterAll rs).phase = .done) ∧
      (fresh.granted rs).countP Request.isParse ≤ 1 ∧
      (fresh.granted rs).countP Request.isResolve ≤ 1 ∧
      (∀ c provider path,
        ((fresh.afterAll rs).phase = .ready →
          ∀ f, ((fresh.afterAll rs).parse c provider path).1 ≠ .error (.fatal f)) ∧
        ((fresh.afterAll rs).phase ≠ .ready →
          Refused (fresh.afterAll rs) c ((fresh.afterAll rs).parse c provider path) ∧
          ∀ read, (fresh.afterAll rs).parse c { provider with read } path =
            (fresh.afterAll rs).parse c provider path)) ∧
      ∀ c,
        ((fresh.afterAll rs).phase = .deferredRegistration →
          ∀ f, ((fresh.afterAll rs).resolve c).1 ≠ .error (.fatal f)) ∧
        ((fresh.afterAll rs).phase ≠ .deferredRegistration →
          Refused (fresh.afterAll rs) c ((fresh.afterAll rs).resolve c)) := by
  have orderly : (fresh.afterAll rs).Orderly := Orderly.afterAll ⟨by decide, by decide⟩ rs
  have isParse : Request.isParse = fun r => decide (r.turn? = some .ready) := by
    funext r
    cases r <;> rfl
  have isResolve : Request.isResolve = fun r => decide (r.turn? = some .deferredRegistration) := by
    funext r
    cases r <;> rfl
  refine ⟨fun more => ?_, orderly.rests, orderly.holds, ?_, ?_, ?_, ?_⟩
  · have split : fresh.afterAll (rs ++ more) = (fresh.afterAll rs).afterAll more :=
      List.foldl_append
    rw [split]
    exact rank_le_afterAll _ more
  · rw [isParse]
    exact countP_granted_le fresh .ready rs
  · rw [isResolve]
    exact countP_granted_le fresh .deferredRegistration rs
  · refine fun c provider path => ⟨fun turn => parse_not_fatal turn c provider path, fun turn => ?_⟩
    refine ⟨parse_refused turn c provider path ▸ refuse_refused _ c _, fun read => ?_⟩
    rw [parse_refused turn, parse_refused turn]
  · refine fun c => ⟨fun turn => resolve_not_fatal turn c, fun turn => ?_⟩
    exact resolve_refused turn c ▸ refuse_refused _ c _

/-- Each of these is asked for twice, resolving for the first time too early and again when the
document has been taken away. -/
def repeatedly : List Request :=
  let provider := (FileStore.empty.insert "P.aidl" "parcelable P { Q q; }").provider
  [.resolve .empty, .parse .empty provider "P.aidl", .takeDocument,
    .parse .empty provider "P.aidl", .resolve .empty]

theorem repeatedly_in_turn :
    (fresh.granted repeatedly).map Request.turn? =
        [some .ready, none, some .deferredRegistration] ∧
      (fresh.afterAll repeatedly).phase = .done ∧
      ∀ provider path,
        Refused (fresh.afterAll repeatedly) .empty
          ((fresh.afterAll repeatedly).parse .empty provider path) := by
  have done : (fresh.afterAll repeatedly).phase = .done := by decide +kernel
  obtain ⟨-, -, -, -, -, opening, -⟩ := requests_in_turn repeatedly
  exact ⟨by decide +kernel, done, fun provider path => ((opening _ provider path).2 (by simp [done])).1⟩

end FileBuild

end IdlFrontEnd
