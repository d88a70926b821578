import IdlFrontEnd.Proofs.Placeless
import IdlFrontEnd.Proofs.Unit.ImportClosure
import IdlFrontEnd.Proofs.Unit.Success

/-!
# When a file can be loaded

Loading is a row of steps, and it succeeds exactly if nothing stands in the way of any of them: the
preprocessed files and the input are read, the walk from the input is clean, no file that it came to
has a name that nobody knows, and the type passes its checks. The declaration of the unit is the one
that the input writes, resolved and numbered.
-/
namespace IdlFrontEnd

open Grammar (SourceFile)

/-- What resolving a stop reports. -/
def ImportWalk.Stop.unresolved (g : Registry) (stop : Stop) : List Diagnostic :=
  (stop.build.document.map (·.unresolvedNotes g)).getD []

namespace Load

open ImportWalk

variable {c : Context}

theorem resolveStop_eq {stop : Stop} (opened : stop.build.phase = .deferredRegistration) :
    resolveStop stop c =
      .ok (stop.resolve c.registry, (stop.unresolved c.registry).isEmpty)
        (c.report (stop.unresolved c.registry)) := by
  unfold resolveStop
  rw [get_bind]
  unfold Stop.resolve
  rw [FileBuild.resolve_eq opened, FileBuild.resolve_eq opened]
  dsimp only
  rw [set_bind]
  unfold Stop.unresolved
  cases h : (stop.build.document.map (·.unresolvedNotes c.registry)).getD [] <;> rfl

theorem resolveStops_eq {stops : List Stop}
    (opened : ∀ stop ∈ stops, stop.build.phase = .deferredRegistration) :
    resolveStops stops c =
      .ok (stops.map fun stop =>
          (stop.resolve c.registry, (stop.unresolved c.registry).isEmpty))
        (c.report (stops.flatMap (·.unresolved c.registry))) := by
  induction stops generalizing c with
  | nil => rfl
  | cons stop stops ih =>
    obtain ⟨first, others⟩ := List.forall_mem_cons.1 opened
    unfold resolveStops
    rw [bind_of_ok (resolveStop_eq first), bind_of_ok (ih others)]
    rw [List.map_cons, List.flatMap_cons, Context.report_append]
    rfl

theorem followImports_eq {provider : SourceProvider} {options : Options} {path : String}
    {build : FileBuild} {stops : List Stop} {w : Walk}
    (walked : ofFile provider options path build c = .ok stops w) :
    followImports provider options path build c =
      if w.clean then .ok stops w.context else .error .badImport w.context := by
  unfold followImports
  rw [walked]

theorem closure_eq_ok_iff {provider : SourceProvider} {options : Options} {path : String}
    {build : FileBuild} {stops : List Stop} {w : Walk} {document : LoadedDocument} {next : Context}
    (walked : ofFile provider options path build c = .ok stops w)
    (opened : ∀ stop ∈ stops, stop.build.phase = .deferredRegistration) :
    closure provider options path build c = .ok document next ↔
      w.clean = true ∧ (∀ stop ∈ stops, stop.unresolved w.context.registry = []) ∧
        (documents 0 (stops.map (·.resolve w.context.registry))).head?.join = some document ∧
        w.context = next := by
  have silent : (stops.map fun stop => (stop.resolve w.context.registry,
        (stop.unresolved w.context.registry).isEmpty)).all Prod.snd = true ↔
      stops.flatMap (·.unresolved w.context.registry) = [] := by
    simp [List.flatMap_eq_nil_iff]
  unfold closure
  cases clean : w.clean with
  | false =>
    rw [bind_of_error (by rw [followImports_eq walked, clean]; rfl)]
    simp
  | true =>
    rw [bind_of_ok (by rw [followImports_eq walked, clean]; rfl), bind_of_ok (resolveStops_eq opened)]
    by_cases none : stops.flatMap (·.unresolved w.context.registry) = []
    · rw [if_neg fun some => some (silent.2 none), none, Context.report_nil]
      have each := List.flatMap_eq_nil_iff.1 none
      have same : (stops.map fun stop => (stop.resolve w.context.registry,
          (stop.unresolved w.context.registry).isEmpty)).map Prod.fst =
            stops.map (·.resolve w.context.registry) := by simp
      rw [same]
      cases (documents 0 (stops.map (·.resolve w.context.registry))).head?.join with
      | none => simp [fault, fail_ne_ok]
      | some found => simpa [pure_eq_ok] using fun _ _ => each
    · rw [if_pos fun all => none (silent.1 all), bind_eq_ok]
      constructor
      · rintro ⟨_, _, thrown, -⟩
        exact absurd thrown throw_eq_ok
      · rintro ⟨-, each, -⟩
        exact absurd (List.flatMap_eq_nil_iff.2 each) none

end Load

/-! ## Checks and numbers -/

namespace Declaration

/-- The resolved declaration passes all checks. -/
structure Passes (options : Options) (path : String) (g : Registry) (d : Declaration) : Prop where
  types : (d.checkTypes g).passes = true
  structured : options.structured = true → ∀ r ∈ g.records, r.kind ≠ .parcelable
  numbers : Method.idProblem? path [] false d.methods = none
  constants : (d.withMethods (Method.numbered d.methods)).checkConstants.passes = true

/-- Places and comments change nothing about that. -/
theorem Passes.congr {options : Options} {path : String} {g : Registry} {d e : Declaration}
    (passes : d.Passes options path g) (same : d.placeless = e.placeless) :
    e.Passes options path g := by
  have methods : d.methods.map Method.placeless = e.methods.map Method.placeless := by
    rw [← placeless_methods, same, placeless_methods]
  constructor
  · rw [← Verdict.passes_placeless, ← placeless_checkTypes, ← same, placeless_checkTypes,
      Verdict.passes_placeless]
    exact passes.types
  · exact passes.structured
  · have silent := passes.numbers
    rwa [← Option.map_eq_none_iff (f := Diagnostic.placeless), ← Method.placeless_idProblem?,
      methods, Method.placeless_idProblem?, Option.map_eq_none_iff] at silent
  · rw [← Verdict.passes_placeless, ← placeless_checkConstants, placeless_withMethods,
      Method.placeless_numbered, ← same, ← methods, ← Method.placeless_numbered,
      ← placeless_withMethods, placeless_checkConstants, Verdict.passes_placeless]
    exact passes.constants

/-- The declaration with its names resolved and its methods numbered. -/
def finished (find : String → Option String) (d : Declaration) : Declaration :=
  let resolved := d.mapTypes (.resolve find)
  resolved.withMethods (Method.numbered resolved.methods)

theorem placeless_finished (find : String → Option String) (d : Declaration) :
    (d.finished find).placeless = d.placeless.finished find := by
  simp only [finished, placeless_withMethods, Method.placeless_numbered, ← placeless_methods,
    placeless_resolve]

end Declaration

/-! ## All steps -/

/-- From an empty context the preprocessed files are read, and the input as `file`. -/
def Load.Begins (provider : SourceProvider) (options : Options) (path : String) (file : SourceFile)
    (start : Context) : Prop :=
  ∃ c, Preprocessed.readAll provider options.preprocessedFiles .empty = (true, c) ∧
    SourceFile.read? provider path = some file ∧
    c.registry.declare file.types = (start.registry, []) ∧ start.reporter = c.reporter

/-- Nothing stands in the way of loading a file that declares `d`. The walk begins in `start` and
ends in `w`. -/
structure Loadable (provider : SourceProvider) (options : Options) (path : String)
    (file : SourceFile) (d : Declaration) (start : Context) (stops : List ImportWalk.Stop)
    (w : ImportWalk.Walk) : Prop where
  begins : Load.Begins provider options path file start
  only : file.types = [d]
  defined : d.kind ≠ .parcelable
  placed : d.placementNotes path = []
  walked : ImportWalk.ofFile provider options path
    (FileBuild.fresh.openedAs path (.built file 0)) start = .ok stops w
  clean : w.clean = true
  known : ∀ stop ∈ stops, stop.unresolved w.context.registry = []
  passes : (d.mapTypes (.resolve (file.document.names w.context.registry))).Passes options path
    w.context.registry

section
variable {s : FileStore} {options : Options} {path : String} {file : SourceFile} {d : Declaration}
  {start : Context} {stops : List ImportWalk.Stop} {w : ImportWalk.Walk}

/-- A walk begins with the file itself, and all its stops wait to be resolved. -/
theorem ImportWalk.stops_of_ofFile
    (walked : ofFile s.provider options path (FileBuild.fresh.openedAs path (.built file 0)) start =
      .ok stops w) :
    (∀ stop ∈ stops, stop.build.phase = .deferredRegistration) ∧
      ∃ first others, stops = first :: others ∧ first.build.document = some file.document := by
  have sources := sources_of_walk walked
  constructor
  · intro stop member
    have source : stop.source ∈ stops.map Stop.source := List.mem_map_of_mem member
    rw [sources] at source
    rcases List.mem_cons.1 source with same | opened
    · rw [show stop.build = _ from congrArg Pending.build same]
      rfl
    · obtain ⟨found, -⟩ := leads_of_openedFrom opened
      obtain ⟨_, -, build⟩ := Option.map_eq_some_iff.1 found
      rw [show stop.build = _ from build.symm]
      rfl
  · cases stops with
    | nil => cases sources
    | cons first others =>
      refine ⟨first, others, rfl, ?_⟩
      have build := congrArg Pending.build (List.cons.inj sources).1
      rw [show first.build = _ from build]
      rfl

/-- The first document of the resolved stops has the types of the file, resolved. -/
theorem ImportWalk.document_of_ofFile
    (walked : ofFile s.provider options path (FileBuild.fresh.openedAs path (.built file 0)) start =
      .ok stops w) (g : Registry) :
    ∃ document, (documents 0 (stops.map (·.resolve g))).head?.join = some document ∧
      document.types = (file.document.resolve g).types := by
  obtain ⟨waiting, first, others, rfl, held⟩ := stops_of_ofFile walked
  have resolved : (first.resolve g).build.document = some (file.document.resolve g) := by
    rw [Stop.resolve_document (waiting first List.mem_cons_self), held]
    rfl
  obtain ⟨document, head, -, types⟩ := documents_head resolved 0 (others.map (·.resolve g))
  exact ⟨document, head, types⟩

open Load ImportWalk in
/-- The closure of a file exists if the walk is clean and every name is known; its type is that of
the file, resolved. -/
theorem Load.closure_of_file {u : Declaration} {next : Context} (only : file.types = [d])
    (walked : ofFile s.provider options path (FileBuild.fresh.openedAs path (.built file 0)) start =
      .ok stops w) :
    (∃ document, closure s.provider options path (FileBuild.fresh.openedAs path (.built file 0))
        start = .ok document next ∧ document.types = [u]) ↔
      w.clean = true ∧ (∀ stop ∈ stops, stop.unresolved w.context.registry = []) ∧
        d.mapTypes (.resolve (file.document.names w.context.registry)) = u ∧ w.context = next := by
  obtain ⟨document, head, types⟩ := document_of_ofFile walked w.context.registry
  have single : document.types =
      [d.mapTypes (.resolve (file.document.names w.context.registry))] := by
    rw [types]
    simp [Document.resolve, Document.mapTypes, SourceFile.document, only]
  simp only [closure_eq_ok_iff walked (stops_of_ofFile walked).1, head, Option.some.injEq]
  constructor
  · rintro ⟨_, ⟨clean, known, rfl, same⟩, own⟩
    rw [single] at own
    exact ⟨clean, known, (List.cons.inj own).1, same⟩
  · rintro ⟨clean, known, rfl, same⟩
    exact ⟨document, ⟨clean, known, rfl, same⟩, single⟩

open Load ImportWalk in
theorem Loadable.loads (loadable : Loadable s.provider options path file d start stops w) :
    ∃ u last, loadUnit s.provider options path .empty = .ok u last ∧
      u.declaration = d.finished (file.document.names w.context.registry) := by
  obtain ⟨c, preprocessed, read, declared, reporter⟩ := loadable.begins
  obtain ⟨document, joined, single⟩ := (Load.closure_of_file loadable.only loadable.walked).2
    ⟨loadable.clean, loadable.known, rfl, rfl⟩
  have parsed : FileBuild.fresh.parse c s.provider path =
      (.ok (), FileBuild.fresh.openedAs path (.built file 0), start) :=
    FileBuild.parse_eq_ok_iff.2 ⟨file, read, rfl, declared, reporter⟩
  have only : (FileBuild.fresh.openedAs path (.built file 0)).types = [d] := loadable.only
  unfold loadUnit
  rw [bind_of_ok (preprocessedFiles_eq_ok_iff.2 preprocessed),
    bind_of_ok (Load.parse_eq_ok_iff.2 parsed),
    bind_of_ok (onlyDeclaration_eq_ok_iff.2 ⟨only, loadable.defined, rfl⟩),
    bind_of_ok (checkPlacement_eq_ok_iff.2 ⟨loadable.placed, rfl⟩), bind_of_ok joined,
    bind_of_ok (release_eq_ok_iff.2 ⟨single, rfl⟩), get_bind,
    bind_of_ok (verdict_eq_ok_iff.2 ⟨Verdict.result_eq_ok_iff.2 loadable.passes.types, rfl⟩),
    bind_of_ok ((checkStructured_eq_ok_iff (c := w.context.report _)).2
      ⟨loadable.passes.structured, rfl⟩),
    bind_of_ok (numberMethods_eq_ok_iff.2 ⟨loadable.passes.numbers, rfl, rfl⟩),
    bind_of_ok (verdict_eq_ok_iff.2 ⟨Verdict.result_eq_ok_iff.2 loadable.passes.constants, rfl⟩)]
  exact ⟨_, _, rfl, rfl⟩

open Load ImportWalk in
theorem loadable_of_loads {u : LoadedUnit} {last : Context}
    (loaded : loadUnit s.provider options path .empty = .ok u last) :
    ∃ file d start stops w, Loadable s.provider options path file d start stops w ∧
      u.declaration = d.finished (file.document.names w.context.registry) := by
  obtain ⟨c, build, start, d, document, after, resolved, ⟨hread, hparse⟩, ⟨only, defined, placed⟩,
    ⟨hclosure, single⟩, types, structured, numbers, constants, rfl, -⟩ := loadUnit_steps loaded
  obtain ⟨file, read, rfl, declared, reporter⟩ :=
    FileBuild.parse_eq_ok_iff.1 (Load.parse_eq_ok_iff.1 hparse)
  obtain ⟨stops, w, walked, -⟩ := ofFile_course s options path
    (FileBuild.fresh.openedAs path (.built file 0)) start
  obtain ⟨clean, known, rfl, rfl⟩ :=
    (Load.closure_of_file only walked).1 ⟨document, hclosure, single⟩
  have passes : (d.mapTypes (.resolve (file.document.names w.context.registry))).Passes options path
      w.context.registry :=
    ⟨Verdict.result_eq_ok_iff.1 types, structured, numbers, Verdict.result_eq_ok_iff.1 constants⟩
  exact ⟨file, d, start, stops, w, ⟨⟨c, preprocessedFiles_eq_ok_iff.1 hread, read, declared,
    reporter⟩, only, defined, placed, walked, clean, known, passes⟩, rfl⟩

end

end IdlFrontEnd
