import IdlFrontEnd.Proofs.Grammar.Parsed
import IdlFrontEnd.Proofs.Registry

/-!
# Building one file, and what it reports

Opening a file and resolving it succeed exactly if they report nothing, and what they report is
errors. A build that was opened is in the phase in which it can be resolved, and a build that was
resolved in silence mentions no type without a canonical name that the registry knows.
-/
namespace IdlFrontEnd

/-- From the first context to the second one these reports were added, all of them errors. -/
structure Context.Adds (c : Context) (notes : List Diagnostic) (next : Context) : Prop where
  reporter : next.reporter = c.reporter.emitAll notes
  errors : AllErrors notes
  named : c.registry.Named → next.registry.Named

namespace Context.Adds

theorem refl (c : Context) : c.Adds [] c := ⟨rfl, .nil, id⟩

theorem trans {c mid next : Context} {notes more : List Diagnostic} (first : c.Adds notes mid)
    (second : mid.Adds more next) : c.Adds (notes ++ more) next := by
  refine ⟨?_, first.errors.append second.errors, fun named => second.named (first.named named)⟩
  rw [second.reporter, first.reporter, Reporter.emitAll_append]

theorem report (c : Context) {notes : List Diagnostic} (errors : AllErrors notes) :
    c.Adds notes (c.report notes) := ⟨rfl, errors, id⟩

end Context.Adds

/-- What a declaration is once its names are resolved. -/
structure Declaration.Resolved (g : Registry) (d : Declaration) : Prop where
  settled : ∀ t ∈ d.types, t.Settled g.Knows
  valued : ∀ c ∈ d.constants, c.value.value ≠ .invalid

theorem Declaration.Resolved.isFullyResolved {g : Registry} {d : Declaration}
    (resolved : d.Resolved g) {t : TypeExpr} (member : t ∈ d.types) : t.isFullyResolved = true :=
  (resolved.settled t member).isFullyResolved

/-! ## Opening a file -/

namespace Context

variable {provider : SourceProvider} {path : String} (c : Context)

theorem openFile_unreadable {e : FileError} (read : provider.read path = .error e) :
    c.openFile provider path = (.unreadable e, c.report [.atFile path (.unreadable e)]) := by
  rw [openFile, read]

section
variable {text : String} (read : provider.read path = .ok text)
include read

/-- The count of errors has grown by what this file was reported for, whatever was reported before
for others. -/
theorem openFile_malformed {file : Grammar.SourceFile} {notes : List Diagnostic}
    (parsed : Grammar.SourceFile.ofText path text = (file, notes)) (some : notes ≠ []) :
    c.openFile provider path = (.rejected notes.length, c.report notes) := by
  have grown : (c.report notes).reporter.errors - c.reporter.errors = notes.length := by
    rw [report, Reporter.errors_emitAll, Nat.add_sub_cancel_left]
  simp only [openFile, read, parsed, grown]
  rw [if_pos (List.length_pos_iff.2 some)]

theorem openFile_built {file : Grammar.SourceFile}
    (parsed : Grammar.SourceFile.ofText path text = (file, [])) :
    c.openFile provider path =
      (.built file (c.registry.declare file.types).2.length,
        { c with registry := (c.registry.declare file.types).1 }.report
          (c.registry.declare file.types).2) := by
  simp only [openFile, read, parsed, report_nil, Nat.sub_self]
  rw [if_neg (Nat.lt_irrefl 0)]

end

/-- All that may come of opening a file: it cannot be read, or it has mistakes, or its types are
declared. -/
inductive OpenOutcome (c : Context) (provider : SourceProvider) (path : String) :
    Opened × Context → Prop
  | unreadable {e : FileError} (read : provider.read path = .error e) :
      OpenOutcome c provider path (.unreadable e, c.report [.atFile path (.unreadable e)])
  | malformed {text : String} {file : Grammar.SourceFile} {notes : List Diagnostic}
      (read : provider.read path = .ok text)
      (parsed : Grammar.SourceFile.ofText path text = (file, notes)) (some : notes ≠ []) :
      OpenOutcome c provider path (.rejected notes.length, c.report notes)
  | built {text : String} {file : Grammar.SourceFile} {registry : Registry}
      {redefined : List Diagnostic} (read : provider.read path = .ok text)
      (parsed : Grammar.SourceFile.ofText path text = (file, []))
      (declared : c.registry.declare file.types = (registry, redefined)) :
      OpenOutcome c provider path
        (.built file redefined.length, { c with registry }.report redefined)

theorem openFile_outcome (provider : SourceProvider) (path : String) :
    OpenOutcome c provider path (c.openFile provider path) := by
  cases read : provider.read path with
  | error e =>
    rw [c.openFile_unreadable read]
    exact .unreadable read
  | ok text =>
    cases parsed : Grammar.SourceFile.ofText path text with
    | mk file notes =>
      by_cases silent : notes = []
      · rw [silent] at parsed
        rw [c.openFile_built read parsed]
        exact .built read parsed rfl
      · rw [c.openFile_malformed read parsed silent]
        exact .malformed read parsed silent

end Context

theorem FileBuild.openedAs_phase (b : FileBuild) (path : String) (opened : Opened) :
    (b.openedAs path opened).phase = opened.phase := by
  cases opened <;> rfl

/-- What a build becomes that opens its file. -/
theorem FileBuild.parse_eq {b : FileBuild} (ready : b.phase = .ready) (c : Context)
    (provider : SourceProvider) (path : String) :
    b.parse c provider path =
      (((c.openFile provider path).1.result path).map fun _ => (),
        b.openedAs path (c.openFile provider path).1, (c.openFile provider path).2) :=
  if_neg fun other => other ready

theorem FileBuild.parse_refused {b : FileBuild} (turn : b.phase ≠ .ready) (c : Context)
    (provider : SourceProvider) (path : String) :
    b.parse c provider path = b.refuse c ⟨.file path, .parsedOutOfTurn b.phase⟩ :=
  if_pos turn

/-! ## Resolving a document -/

namespace Document

theorem unresolvedNotes_errors (d : Document) (g : Registry) : AllErrors (d.unresolvedNotes g) := by
  refine .flatMap (fun t => ?_) _
  split
  · exact .nil
  · exact .map (fun _ => rfl) _

theorem names_proper (d : Document) {g : Registry} (named : g.Named) :
    TypeExpr.Proper (d.names g) := named.canonical?_proper _

/-- A type that is not reported ends up with all its names. -/
theorem isFullyResolved_of_silent {d : Document} {g : Registry} (named : g.Named)
    (silent : d.unresolvedNotes g = []) {t : TypeExpr} (member : t ∈ d.typeExprs) :
    (t.resolve (d.names g)).isFullyResolved = true := by
  have quiet := List.flatMap_eq_nil_iff.1 silent t member
  split at quiet
  next known =>
    rw [← TypeExpr.isKnown_eq_isFullyResolved (d.names_proper named)]
    exact known
  · exact (TypeExpr.unresolvedParts_eq_nil_iff _).1 (List.map_eq_nil_iff.1 quiet)

theorem resolve_resolved {d : Document} {g : Registry} (named : g.Named)
    (parsed : ∀ declared ∈ d.types, declared.Parsed) (silent : d.unresolvedNotes g = []) :
    ∀ declared ∈ (d.resolve g).types, declared.Resolved g := by
  intro declared member
  obtain ⟨written, inside, rfl⟩ := List.mem_map.1 member
  have own := parsed written inside
  constructor
  · intro t mentioned
    rw [Declaration.mapTypes_types] at mentioned
    obtain ⟨u, there, rfl⟩ := List.mem_map.1 mentioned
    refine TypeExpr.settled_resolve (own.unfound u there)
      (fun _ _ found => Registry.knows_of_canonical? found) ?_
    exact isFullyResolved_of_silent named silent (mem_typeExprs_iff.2 ⟨written, inside, there⟩)
  · intro c constant
    rw [Declaration.mapTypes_constants] at constant
    obtain ⟨k, there, rfl⟩ := List.mem_map.1 constant
    exact own.valued k there

end Document

namespace FileBuild

/-- The build has opened its file, which was read without a mistake. -/
structure IsOpen (b : FileBuild) : Prop where
  phase : b.phase = .deferredRegistration
  document : ∃ d, b.document = some d
  parsed : ∀ d ∈ b.types, d.Parsed

/-- What may come of opening a file. -/
inductive ParseOutcome : Except ParseFailure Unit → FileBuild → List Diagnostic → Prop
  | ok {b : FileBuild} (opened : b.IsOpen) : ParseOutcome (.ok ()) b []
  | error {failure : ParseFailure} {b : FileBuild} {notes : List Diagnostic}
      (mild : ∀ f, failure ≠ .fatal f) (told : notes ≠ []) :
      ParseOutcome (.error failure) b notes

theorem parse_outcome (c : Context) (provider : SourceProvider) (path : String) :
    ∃ notes, c.Adds notes (fresh.parse c provider path).2.2 ∧
      ParseOutcome (fresh.parse c provider path).1 (fresh.parse c provider path).2.1 notes := by
  rw [parse_eq rfl]
  have opened := c.openFile_outcome provider path
  generalize c.openFile provider path = answer at opened ⊢
  cases opened with
  | unreadable read => exact ⟨_, .report c (.single rfl), .error (by rintro _ ⟨⟩) (by simp)⟩
  | @malformed text file notes read parsed some =>
    have errors := (Grammar.ofText_mistakes path text).errors
    rw [parsed] at errors
    exact ⟨notes, .report c errors, .error (by rintro _ ⟨⟩) some⟩
  | @built text file registry redefined read parsed declared =>
    have own : ∀ d ∈ file.types, d.Parsed := by
      simpa [parsed] using @Grammar.ofText_parsed path text
    have errors := c.registry.declare_errors file.types
    have named (known : c.registry.Named) : (c.registry.declare file.types).1.Named :=
      known.declare fun d member => (own d member).named
    rw [declared] at errors named
    refine ⟨redefined, ⟨rfl, errors, named⟩, ?_⟩
    cases redefined with
    | nil => exact .ok ⟨rfl, ⟨file.document, rfl⟩, own⟩
    | cons note redefined => exact .error (by rintro _ ⟨⟩) (by simp)

/-- A file that was opened without a mistake was read as a source file, and all its types have gone
into the registry. -/
theorem parse_ok {c next : Context} {provider : SourceProvider} {path : String}
    {build : FileBuild} (h : fresh.parse c provider path = (.ok (), build, next)) :
    ∃ text file, provider.read path = .ok text ∧ Grammar.SourceFile.ofText path text = (file, []) ∧
      build.document = some file.document ∧
      c.registry.declare file.types = (next.registry, []) := by
  rw [parse_eq rfl] at h
  have opened := c.openFile_outcome provider path
  generalize c.openFile provider path = answer at opened h
  cases opened with
  | unreadable | malformed => cases congrArg Prod.fst h
  | @built text file registry redefined read parsed declared =>
    cases redefined with
    | cons note redefined => cases congrArg Prod.fst h
    | nil =>
      cases h
      exact ⟨text, file, read, parsed, rfl, declared⟩

theorem isOpen_of_parse {c next : Context} {provider : SourceProvider} {path : String}
    {build : FileBuild} (h : fresh.parse c provider path = (.ok (), build, next)) :
    build.IsOpen := by
  obtain ⟨notes, -, outcome⟩ := parse_outcome c provider path
  rw [h] at outcome
  cases outcome with
  | ok opened => exact opened

theorem declared_of_parse {c next : Context} {provider : SourceProvider} {path : String}
    {build : FileBuild} (h : fresh.parse c provider path = (.ok (), build, next)) :
    ∀ d ∈ build.types, TypeRecord.ofDeclaration d ∈ next.registry.records := by
  obtain ⟨text, file, -, -, document, declared⟩ := parse_ok h
  intro d member
  have own : d ∈ file.types := by simpa [types, document, Grammar.SourceFile.document] using member
  have silent : (c.registry.declare file.types).2 = [] := by rw [declared]
  simpa [declared] using Registry.mem_declare silent own

/-- Opening a file takes nothing out of the registry. -/
theorem parse_grows (b : FileBuild) (c : Context) (provider : SourceProvider) (path : String) :
    c.registry.GrowsTo (b.parse c provider path).2.2.registry := by
  by_cases ready : b.phase = .ready
  · rw [parse_eq ready]
    have opened := c.openFile_outcome provider path
    generalize c.openFile provider path = answer at opened ⊢
    cases opened with
    | unreadable | malformed => exact .refl _
    | @built text file registry redefined read parsed declared =>
      have grows := c.registry.declare_grows file.types
      rwa [declared] at grows
  · rw [parse_refused ready]
    exact .refl _

/-- What a build becomes in its turn. -/
theorem resolve_eq {b : FileBuild} (opened : b.phase = .deferredRegistration) (c : Context) :
    let notes := (b.document.map (·.unresolvedNotes c.registry)).getD []
    b.resolve c =
      (if notes.isEmpty then .ok () else .error (.unresolved b.file notes.length),
        { b with
          document := b.document.map (·.resolve c.registry)
          phase := .done
          deferred := notes.length },
        c.report notes) :=
  if_neg fun other => other opened

theorem resolve_refused {b : FileBuild} (turn : b.phase ≠ .deferredRegistration) (c : Context) :
    b.resolve c = b.refuse c ⟨.file b.file, .resolvedOutOfTurn b.phase⟩ :=
  if_pos turn

theorem resolve_registry (b : FileBuild) (c : Context) :
    (b.resolve c).2.2.registry = c.registry := by
  unfold resolve refuse
  split <;> rfl

/-- Only the registry counts for what resolving makes of a build. -/
theorem resolve_congr (b : FileBuild) {c other : Context} (same : c.registry = other.registry) :
    (b.resolve c).1 = (b.resolve other).1 ∧ (b.resolve c).2.1 = (b.resolve other).2.1 := by
  unfold resolve refuse
  rw [same]
  split <;> exact ⟨rfl, rfl⟩

theorem resolve_file (b : FileBuild) (c : Context) : (b.resolve c).2.1.file = b.file := by
  unfold resolve refuse
  split <;> rfl

/-- What may come of resolving an open file against a registry. -/
inductive ResolveOutcome (g : Registry) :
    Except ParseFailure Unit → FileBuild → List Diagnostic → Prop
  | ok {b : FileBuild} (resolved : ∀ d ∈ b.types, d.Resolved g) : ResolveOutcome g (.ok ()) b []
  | error {failure : ParseFailure} {b : FileBuild} {notes : List Diagnostic}
      (mild : ∀ f, failure ≠ .fatal f) (told : notes ≠ []) :
      ResolveOutcome g (.error failure) b notes

theorem resolve_outcome {b : FileBuild} (opened : b.IsOpen) {c : Context}
    (named : c.registry.Named) :
    ∃ notes, AllErrors notes ∧ (b.resolve c).2.2 = c.report notes ∧
      (b.resolve c).2.1.document = b.document.map (·.resolve c.registry) ∧
      ResolveOutcome c.registry (b.resolve c).1 (b.resolve c).2.1 notes := by
  obtain ⟨d, hd⟩ := opened.document
  have parsed : ∀ declared ∈ d.types, declared.Parsed := by
    simpa [types, hd] using opened.parsed
  rw [resolve_eq opened.phase]
  refine ⟨d.unresolvedNotes c.registry, d.unresolvedNotes_errors c.registry, ?_, rfl, ?_⟩
  · simp [hd]
  · simp only [hd, Option.map_some, Option.getD_some]
    cases silent : d.unresolvedNotes c.registry with
    | nil => exact .ok (Document.resolve_resolved named parsed silent)
    | cons note notes => exact .error (by rintro _ ⟨⟩) (by simp)

end FileBuild

end IdlFrontEnd
