import IdlFrontEnd.Proofs.BuildEffects
import IdlFrontEnd.Proofs.Unit.WalkBound
import IdlFrontEnd.Unit.Load

/-!
# What following imports reports

An import that leads to no file is reported whenever it is met, a file that does not open only for
the import it was opened for, whatever other imports lead to it later. The second one needs the set
of broken files: an import that leads to one of them says nothing and still fails the walk, which is
right because the walk has failed already when a file is broken. So the walk fails exactly if one of
the reports is about an import, and no report of a mistake inside of a file is taken for one.
-/
namespace IdlFrontEnd

namespace Cause

def isImportNotFound : Cause → Bool
  | .importNotFound _ => true
  | _ => false

def isImportFailed : Cause → Bool
  | .importFailed .. => true
  | _ => false

/-- The cause lies in an import or in the place of the file that it leads to. -/
def isImportFault : Cause → Bool
  | .importNotFound _ | .importFailed .. | .importDoesNotDeclare .. | .misplaced .. => true
  | _ => false

theorem not_isImportFault_of_isSyntactic {cause : Cause} (syntactic : cause.isSyntactic = true) :
    cause.isImportFault = false := by
  cases cause <;> first | rfl | cases syntactic

theorem isImportFault_of_isImportNotFound {cause : Cause} (h : cause.isImportNotFound = true) :
    cause.isImportFault = true := by
  cases cause <;> first | rfl | cases h

theorem isImportFault_of_isImportFailed {cause : Cause} (h : cause.isImportFailed = true) :
    cause.isImportFault = true := by
  cases cause <;> first | rfl | cases h

end Cause

/-- None of these reports is about an import. -/
def NoImportFaults (notes : List Diagnostic) : Prop := ∀ n ∈ notes, n.cause.isImportFault = false

instance (notes : List Diagnostic) : Decidable (NoImportFaults notes) :=
  inferInstanceAs (Decidable (∀ n ∈ notes, n.cause.isImportFault = false))

theorem NoImportFaults.append_iff {notes more : List Diagnostic} :
    NoImportFaults (notes ++ more) ↔ NoImportFaults notes ∧ NoImportFaults more :=
  List.forall_mem_append

theorem NoImportFaults.filter {notes : List Diagnostic} (none : NoImportFaults notes)
    {p : Cause → Bool} (fault : ∀ {cause}, p cause = true → cause.isImportFault = true) :
    notes.filter (fun n => p n.cause) = [] := by
  rw [List.filter_eq_nil_iff]
  intro n member found
  have other := none n member
  rw [fault found] at other
  cases other

/-- Whatever comes of opening a file, what is reported for it is not about an import. -/
theorem FileBuild.parse_notes (c : Context) (provider : SourceProvider) (path : String) :
    ∃ notes, (FileBuild.fresh.parse c provider path).2.2.log = c.log ++ notes ∧
      NoImportFaults notes := by
  rw [FileBuild.parse_eq rfl]
  have outcome := c.openFile_outcome provider path
  generalize c.openFile provider path = opened at outcome ⊢
  cases outcome with
  | @unreadable e read =>
    exact ⟨[.atFile path (.unreadable e)], Reporter.diagnostics_emitAll _ _, by
      simp [NoImportFaults, Diagnostic.atFile, Cause.isImportFault]⟩
  | @malformed text file notes read parsed some =>
    have mistakes := Grammar.ofText_mistakes path text
    rw [parsed] at mistakes
    exact ⟨notes, Reporter.diagnostics_emitAll _ _, fun n member =>
      Cause.not_isImportFault_of_isSyntactic (mistakes n member).2⟩
  | @built text file registry redefined read parsed declared =>
    have notes := c.registry.declare_notes file.types
    rw [declared] at notes
    dsimp only at notes
    refine ⟨redefined, Reporter.diagnostics_emitAll _ _, ?_⟩
    rw [notes]
    intro n member
    obtain ⟨d, -, rfl⟩ := List.mem_map.1 member
    rfl

/-- All that may be reported for a file that opens: a type that is not in its place. -/
theorem FileBuild.misplaced_of_mem {b : FileBuild} {path : String} {n : Diagnostic}
    (member : n ∈ b.types.flatMap (·.placementNotes path)) :
    ∃ canonical file, n.cause = .misplaced canonical file := by
  obtain ⟨d, -, member⟩ := List.mem_flatMap.1 member
  unfold Declaration.placementNotes at member
  split at member
  · cases member
  · rw [List.mem_singleton.1 member]
    exact ⟨_, _, rfl⟩

theorem FileBuild.misplaced_filter (b : FileBuild) (path : String) {p : Cause → Bool}
    (other : ∀ canonical file, p (.misplaced canonical file) = false) :
    (b.types.flatMap (·.placementNotes path)).filter (fun n => p n.cause) = [] := by
  rw [List.filter_eq_nil_iff]
  intro n member
  obtain ⟨canonical, file, cause⟩ := misplaced_of_mem member
  rw [cause, other]
  exact Bool.false_ne_true

theorem FileBuild.misplaced_apart_iff (b : FileBuild) (path : String) :
    NoImportFaults (b.types.flatMap (·.placementNotes path)) ↔
      b.types.flatMap (·.placementNotes path) = [] := by
  constructor
  · intro none
    rw [List.eq_nil_iff_forall_not_mem]
    intro n member
    obtain ⟨canonical, file, cause⟩ := misplaced_of_mem member
    have other := none n member
    rw [cause] at other
    cases other
  · intro none
    rw [none]
    exact List.forall_mem_nil _

namespace ImportWalk

/-! ## What an import is reported for -/

namespace Encounter

section
variable (provider : SourceProvider) (options : Options) (e : Encounter)

/-- The class is not known and no file is found for it. -/
def isMissing : Bool :=
  e.known?.isNone && (ImportSearch.file? provider options e.statement.className).isNone

/-- The file that is opened for the import and does not open. -/
def failing? : Option String :=
  (e.opens? provider options).bind fun path =>
    match FileBuild.fresh.parse e.before.context provider path with
    | (.ok (), _) => none
    | (.error _, _) => some path

def missingNote : Diagnostic :=
  .atPlace e.statement.location (.importNotFound e.statement.className)

def failureNote (path : String) : Diagnostic :=
  .atPlace e.statement.location (.importFailed path e.statement.className)

end

variable {provider : SourceProvider} {options : Options} {e : Encounter}

theorem isMissing_of_opens {path : String} (opens : e.opens? provider options = some path) :
    e.isMissing provider options = false := by
  obtain ⟨-, found, -⟩ := opens?_eq_some_iff.1 opens
  simp [isMissing, found]

theorem failing?_of_unopened (unopened : e.opens? provider options = none) :
    e.failing? provider options = none := by
  unfold failing?
  rw [unopened]
  rfl

end Encounter

section
variable (provider : SourceProvider) (options : Options)

/-- A walk that knows of a broken file has failed. -/
def Walk.Sound (w : Walk) : Prop := w.broken ≠ [] → w.clean = false

/-- What a part of the walk has reported when it has come through these encounters. -/
structure Reported (es : List Encounter) (notes : List Diagnostic) (w next : Walk) : Prop where
  log : next.context.log = w.context.log ++ notes
  missing : notes.filter (·.cause.isImportNotFound) =
    (es.filter (·.isMissing provider options)).map Encounter.missingNote
  failed : notes.filter (·.cause.isImportFailed) =
    es.filterMap fun e => (e.failing? provider options).map e.failureNote
  sound : w.Sound → next.Sound
  clean : w.Sound → (next.clean = true ↔ w.clean = true ∧ NoImportFaults notes)

end

namespace Reported

variable {provider : SourceProvider} {options : Options} {e : Encounter} {next : Walk}

theorem refl (w : Walk) (pending : List Pending) :
    Reported provider options [] [] w { w with pending } := by
  constructor <;> simp [NoImportFaults, Walk.Sound]

theorem trans {es more : List Encounter} {notes others : List Diagnostic} {w mid next : Walk}
    (first : Reported provider options es notes w mid)
    (second : Reported provider options more others mid next) :
    Reported provider options (es ++ more) (notes ++ others) w next := by
  constructor
  case log => rw [second.log, first.log, List.append_assoc]
  case missing =>
    rw [List.filter_append, first.missing, second.missing, List.filter_append, List.map_append]
  case failed => rw [List.filter_append, first.failed, second.failed, List.filterMap_append]
  case sound => exact fun sound => second.sound (first.sound sound)
  case clean =>
    intro sound
    rw [second.clean (first.sound sound), first.clean sound, and_assoc, NoImportFaults.append_iff]

/-- An import that no file is opened for, and that fails the walk with these reports. -/
theorem unopened (unopened : e.opens? provider options = none) {notes : List Diagnostic}
    (missing : notes.filter (·.cause.isImportNotFound) =
      if e.isMissing provider options then [e.missingNote] else [])
    (failed : notes.filter (·.cause.isImportFailed) = [])
    (why : e.before.broken ≠ [] ∨ ¬ NoImportFaults notes) :
    Reported provider options [e] notes e.before (e.before.fail notes) := by
  constructor
  case log => exact Reporter.diagnostics_emitAll _ _
  case missing =>
    rw [missing]
    cases h : e.isMissing provider options <;> simp [h]
  case failed =>
    rw [failed]
    simp [Encounter.failing?_of_unopened unopened]
  case sound => exact fun _ _ => rfl
  case clean =>
    intro sound
    simp only [Walk.fail, Bool.false_eq_true, false_iff, not_and]
    intro clean
    rcases why with broken | fault
    · rw [sound broken] at clean
      cases clean
    · exact fault

section
variable {path : String} {build : FileBuild} {context : Context}

/-- An import for which a file opens. Only a type out of its place is reported. -/
theorem built (opens : e.opens? provider options = some path)
    (parsed : FileBuild.fresh.parse e.before.context provider path = (.ok (), build, context)) :
    ∃ notes, Reported provider options [e] notes e.before
      (Walk.add { e.before with context, visited := identity provider path :: e.before.visited }
        path build) := by
  obtain ⟨inside, log, apart⟩ := FileBuild.parse_notes e.before.context provider path
  rw [parsed] at log
  refine ⟨inside ++ build.types.flatMap (·.placementNotes path), ?_⟩
  constructor
  case log =>
    rw [← List.append_assoc, ← log]
    exact Reporter.diagnostics_emitAll _ _
  case missing =>
    rw [List.filter_append, apart.filter Cause.isImportFault_of_isImportNotFound,
      build.misplaced_filter path fun _ _ => rfl]
    simp [Encounter.isMissing_of_opens opens]
  case failed =>
    rw [List.filter_append, apart.filter Cause.isImportFault_of_isImportFailed,
      build.misplaced_filter path fun _ _ => rfl]
    simp [Encounter.failing?, opens, parsed]
  case sound =>
    intro sound broken
    simp [Walk.add, sound broken]
  case clean =>
    intro _
    rw [NoImportFaults.append_iff, build.misplaced_apart_iff path, Walk.add, Bool.and_eq_true,
      List.isEmpty_iff]
    exact and_congr_right fun _ => (and_iff_right apart).symm

/-- An import for which a file is opened that turns out broken. -/
theorem broke (opens : e.opens? provider options = some path) {failure : ParseFailure}
    (parsed : FileBuild.fresh.parse e.before.context provider path =
      (.error failure, build, context)) :
    ∃ notes, Reported provider options [e] notes e.before
      (Walk.fail
        { e.before with
          context
          visited := identity provider path :: e.before.visited
          broken := identity provider path :: e.before.broken }
        [e.failureNote path]) := by
  obtain ⟨inside, log, apart⟩ := FileBuild.parse_notes e.before.context provider path
  rw [parsed] at log
  refine ⟨inside ++ [e.failureNote path], ?_⟩
  constructor
  case log =>
    rw [← List.append_assoc, ← log]
    exact Reporter.diagnostics_emitAll _ _
  case missing =>
    rw [List.filter_append, apart.filter Cause.isImportFault_of_isImportNotFound]
    simp [Encounter.isMissing_of_opens opens, Encounter.failureNote, Diagnostic.atPlace,
      Cause.isImportNotFound]
  case failed =>
    rw [List.filter_append, apart.filter Cause.isImportFault_of_isImportFailed]
    simp [Encounter.failing?, opens, parsed, Encounter.failureNote, Diagnostic.atPlace,
      Cause.isImportFailed]
  case sound => exact fun _ _ => rfl
  case clean =>
    intro _
    simp [Walk.fail, NoImportFaults, Encounter.failureNote, Diagnostic.atPlace,
      Cause.isImportFault]

end

/-- Every import is reported for what it met. -/
theorem of_follow {link : Link}
    (followed : follow provider options e.statement e.before = .ok link next) :
    ∃ notes, Reported provider options [e] notes e.before next := by
  cases opens : e.opens? provider options with
  | some path =>
    rw [follow_of_opens opens] at followed
    unfold openFor at followed
    cases parsed : FileBuild.fresh.parse e.before.context provider path with
    | mk result answer =>
      obtain ⟨build, context⟩ := answer
      rw [parsed] at followed
      cases result with
      | ok _ =>
        cases followed
        exact built opens parsed
      | error failure =>
        -- a fatal failure would have ended the walk at this import
        cases failure <;> cases followed <;> exact broke opens parsed
  | none =>
    unfold follow at followed
    cases known : e.known? with
    | some record =>
      rw [show e.before.context.registry.lookup? e.statement.className = some record from known]
        at followed
      cases followed
      refine ⟨[], ?_⟩
      constructor <;>
        simp [Encounter.isMissing, known, Encounter.failing?_of_unopened opens, NoImportFaults]
    | none =>
      rw [show e.before.context.registry.lookup? e.statement.className = none from known]
        at followed
      dsimp only at followed
      cases found : ImportSearch.file? provider options e.statement.className with
      | none =>
        rw [found] at followed
        cases followed
        have missing : e.isMissing provider options = true := by
          simp [Encounter.isMissing, known, found]
        refine ⟨_, unopened opens ?_ rfl (.inr ?_)⟩
        · rw [missing]
          rfl
        · simp [NoImportFaults, Diagnostic.atPlace, Cause.isImportFault]
      | some path =>
        rw [found] at followed
        dsimp only at followed
        rw [if_pos (Encounter.visited_of_unopened opens known found)] at followed
        have present : e.isMissing provider options = false := by
          simp [Encounter.isMissing, found]
        cases followed
        refine ⟨_, unopened opens ?_ ?_ ?_⟩
        · rw [present]
          split <;> rfl
        · split <;> rfl
        · split
          next broken => exact .inl (List.ne_nil_of_mem broken)
          · exact .inr (by simp [NoImportFaults, Diagnostic.atPlace, Cause.isImportFault])

/-- The reports of the walk are those of its encounters. -/
theorem of_run (provider : SourceProvider) (options : Options) (count : Nat) (w : Walk) :
    ∃ notes, Reported provider options (encounters provider options count w) notes w
      (stateAfter (run provider options count w)) := by
  apply run_induction
    (R := fun es w next => ∃ notes, Reported provider options es notes w next)
  case refl => exact fun w => ⟨[], refl w w.pending⟩
  case take => exact fun w _ pending _ => ⟨[], refl w pending⟩
  case single => exact fun e next followed => of_follow followed
  case trans =>
    rintro es more w mid next ⟨notes, first⟩ ⟨others, second⟩
    exact ⟨_, first.trans second⟩

end Reported

/-! ## The whole walk -/

/-- No file fails twice. -/
theorem failing_sublist (provider : SourceProvider) (options : Options) (es : List Encounter) :
    (es.filterMap (·.failing? provider options)).Sublist (opens provider options es) := by
  apply filterMap_sublist
  intro e path failing
  obtain ⟨found, opens, failing⟩ := Option.bind_eq_some_iff.1 failing
  split at failing <;> cases failing
  exact opens

/-- What a walk that met these imports and made these stops has come through, and what it has
reported. -/
structure Surfaced (provider : SourceProvider) (options : Options) (path : String)
    (build : FileBuild) (es : List Encounter) (stops : List Stop) (notes : List Diagnostic) :
    Prop where
  /-- The files that opened are the stops, and none of them comes twice. -/
  sources : stops.map Stop.source = ⟨path, build⟩ :: openings provider options es
  distinct : ((stops.map Stop.source).map (identity provider ·.path)).Nodup
  /-- Each import of each of them was met, once and in order. -/
  statements : es.map Encounter.statement = stops.flatMap (·.build.imports)
  /-- One report for each import whose class is not known and for which there is no file. -/
  missing : notes.filter (·.cause.isImportNotFound) =
    (es.filter (·.isMissing provider options)).map Encounter.missingNote
  /-- One report for each file that did not open, and none of these is another one's file. -/
  failed : notes.filter (·.cause.isImportFailed) =
    es.filterMap fun e => (e.failing? provider options).map e.failureNote
  once : ((es.filterMap (·.failing? provider options)).map (identity provider)).Nodup

/-- Whatever the first file, its imports and the registry are, following the imports goes through
all imports of all files that open and reports each problem once, and it fails exactly if one of the
reports is about an import. -/
theorem followImports_surfaces (s : FileStore) (options : Options) (path : String)
    (build : FileBuild) (c : Context) :
    ∃ stops w notes, ofFile s.provider options path build c = .ok stops w ∧
      w.context.log = c.log ++ notes ∧
      Load.followImports s.provider options path build c =
        (if NoImportFaults notes then .ok stops w.context else .error .badImport w.context) ∧
      Surfaced s.provider options path build (met s.provider options path build c) stops notes := by
  obtain ⟨stops, w, walked, course, joints, consecutive, ended⟩ :=
    ofFile_course s options path build c
  obtain ⟨notes, reported⟩ := Reported.of_run s.provider options (s.provider.limit + 1)
    (.start s.provider path build c)
  have sources := course.pending
  have distinct := course.distinct
  rw [show run s.provider options (s.provider.limit + 1) (.start s.provider path build c) =
    .ok stops w from walked] at reported
  have clean : w.clean = true ↔ NoImportFaults notes := by
    have sound : (Walk.start s.provider path build c).Sound := fun broken => absurd rfl broken
    rw [show w = stateAfter (.ok stops w : EStateM.Result Fatal Walk (List Stop)) from rfl,
      reported.clean sound]
    exact and_iff_right rfl
  rw [ended, List.append_nil] at sources
  refine ⟨stops, w, notes, walked, reported.log, ?_, ?_⟩
  · unfold Load.followImports
    rw [walked]
    simp only [clean]
  · constructor
    case sources => exact sources
    case distinct =>
      have opened := (openings_sublist s.provider options
        (met s.provider options path build c)).map (identity s.provider)
      rw [List.map_map] at opened
      rw [sources]
      exact distinct.sublist (opened.cons_cons (identity s.provider path))
    case statements => rw [← consecutive.statements, joints, List.map_map]; rfl
    case missing => exact reported.missing
    case failed => exact reported.failed
    case once =>
      exact (List.nodup_cons.1 distinct).2.sublist ((failing_sublist _ _ _).map _)

end ImportWalk

end IdlFrontEnd
