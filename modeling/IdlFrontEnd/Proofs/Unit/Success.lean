import IdlFrontEnd.Proofs.Unit.Load
import IdlFrontEnd.Proofs.Unit.Tour

/-!
# What a successful load went through

A load that gives a unit has come through every step. Its input was opened, the walk from it was
clean, every file was resolved against the registry that the walk left, and the checks that follow
have changed neither that registry nor the imports.
-/
namespace IdlFrontEnd

namespace ImportWalk

/-- A stop with its names resolved against a registry. -/
def Stop.resolve (g : Registry) (stop : Stop) : Stop :=
  { stop with build := (stop.build.resolve ⟨g, .empty⟩).2.1 }

theorem Stop.resolve_imports (g : Registry) (stop : Stop) :
    (stop.resolve g).build.imports = stop.build.imports := by
  unfold Stop.resolve FileBuild.resolve FileBuild.imports
  split
  · rfl
  · cases stop.build.document <;> rfl

theorem Stop.resolve_joints (g : Registry) (stop : Stop) :
    (stop.resolve g).joints = stop.joints := by
  unfold Stop.joints
  rw [Stop.resolve_imports]
  rfl

theorem Stop.resolve_document {stop : Stop} (waiting : stop.build.phase = .deferredRegistration)
    (g : Registry) :
    (stop.resolve g).build.document = stop.build.document.map (·.resolve g) := by
  unfold Stop.resolve
  rw [FileBuild.resolve_eq waiting]

theorem Consecutive.resolve {first next : Nat} {stops : List Stop}
    (consecutive : Consecutive first next stops) (g : Registry) :
    Consecutive first next (stops.map (·.resolve g)) := by
  induction consecutive with
  | nil => exact .nil
  | cons waited whole targets _ ih =>
    rw [← Stop.resolve_imports g] at whole
    exact .cons waited whole targets ih

end ImportWalk

namespace Load

variable {α : Type} {c next : Context}

theorem Honest.of_ok {P : α → Context → Prop} {result : EStateM.Result LoadError Context α}
    (honest : Honest c P result) {a : α} (h : result = .ok a next) :
    next.registry.Named ∧ P a next := by
  subst h
  cases honest with
  | ok _ named result => exact ⟨named, result⟩

theorem preprocessedFiles_eq_ok_iff {provider : SourceProvider} {options : Options} :
    preprocessedFiles provider options c = .ok () next ↔
      Preprocessed.readAll provider options.preprocessedFiles c = (true, next) := by
  unfold preprocessedFiles
  rw [get_bind]
  generalize Preprocessed.readAll provider options.preprocessedFiles c = answer
  obtain ⟨ok, after⟩ := answer
  dsimp only
  rw [set_bind]
  cases ok <;> simp [pure_eq_ok, throw_eq_ok]

theorem parse_eq_ok_iff {provider : SourceProvider} {path : String} {build : FileBuild} :
    parse provider path c = .ok build next ↔
      FileBuild.fresh.parse c provider path = (.ok (), build, next) := by
  unfold parse
  rw [get_bind]
  generalize FileBuild.fresh.parse c provider path = answer
  obtain ⟨result, opened, after⟩ := answer
  dsimp only
  rw [set_bind]
  cases result <;> simp [pure_eq_ok, throw_eq_ok]

theorem fail_ne_ok {error : LoadError} {notes : List Diagnostic} {a : α} :
    (fail error notes : Load α) c ≠ .ok a next := by
  intro h
  cases h

theorem onlyDeclaration_eq_ok_iff {path : String} {types : List Declaration} {d : Declaration} :
    onlyDeclaration path types c = .ok d next ↔
      types = [d] ∧ d.kind ≠ .parcelable ∧ c = next := by
  unfold onlyDeclaration
  split
  next none => simp [fail_ne_ok, List.isEmpty_iff.1 none]
  next some =>
    split
    next unstructured =>
      simp only [throw_eq_ok, false_iff, not_and]
      rintro rfl structured
      simp [isUnstructured, structured] at unstructured
    next structured =>
      split
      next only =>
        simp only [pure_eq_ok, List.cons.injEq, and_true]
        constructor
        · rintro ⟨rfl, rfl⟩
          exact ⟨rfl, by simpa [isUnstructured] using structured, rfl⟩
        · rintro ⟨rfl, -, rfl⟩
          exact ⟨rfl, rfl⟩
      next several =>
        simp only [fail_ne_ok, false_iff, not_and]
        exact fun only => absurd only (several d)

theorem checkPlacement_eq_ok_iff {path package : String} {d : Declaration} :
    checkPlacement path package d c = .ok () next ↔ d.placementNotes path = [] ∧ c = next := by
  unfold checkPlacement
  split
  next none => simpa [pure_eq_ok] using fun _ => List.isEmpty_iff.1 none
  next some => simpa [fail_ne_ok] using fun none => absurd none (by simpa using some)

theorem resolveStop_ok {stop : ImportWalk.Stop} {r : ImportWalk.Stop × Bool}
    (h : resolveStop stop c = .ok r next) :
    r.1 = stop.resolve c.registry ∧ next.registry = c.registry := by
  have same : c.registry = (⟨c.registry, .empty⟩ : Context).registry := rfl
  have build : (stop.build.resolve c).2.1 = (stop.build.resolve ⟨c.registry, .empty⟩).2.1 :=
    (stop.build.resolve_congr same).2
  have registry := stop.build.resolve_registry c
  unfold resolveStop at h
  rw [get_bind] at h
  unfold ImportWalk.Stop.resolve
  rw [← build, ← registry]
  generalize stop.build.resolve c = answer at h ⊢
  obtain ⟨result, resolved, after⟩ := answer
  dsimp only at h ⊢
  rw [set_bind] at h
  split at h
  · cases h
    exact ⟨rfl, rfl⟩
  · cases h
  · cases h
    exact ⟨rfl, rfl⟩

theorem resolveStops_ok {stops : List ImportWalk.Stop} {rs : List (ImportWalk.Stop × Bool)}
    (h : resolveStops stops c = .ok rs next) :
    rs.map Prod.fst = stops.map (·.resolve c.registry) ∧ next.registry = c.registry := by
  induction stops generalizing c rs with
  | nil =>
    cases h
    exact ⟨rfl, rfl⟩
  | cons stop stops ih =>
    unfold resolveStops at h
    obtain ⟨r, mid, first, h⟩ := bind_eq_ok.1 h
    obtain ⟨others, last, rest, h⟩ := bind_eq_ok.1 h
    cases h
    obtain ⟨own, same⟩ := resolveStop_ok first
    obtain ⟨all, registry⟩ := ih rest
    rw [same] at all registry
    rw [List.map_cons, List.map_cons, own, all]
    exact ⟨rfl, registry⟩

theorem followImports_ok {provider : SourceProvider} {options : Options} {path : String}
    {build : FileBuild} {stops : List ImportWalk.Stop}
    (h : followImports provider options path build c = .ok stops next) :
    ∃ w, ImportWalk.ofFile provider options path build c = .ok stops w ∧ w.clean = true ∧
      next = w.context := by
  unfold followImports at h
  split at h
  · cases h
  next found w walked =>
    split at h
    next clean =>
      cases h
      exact ⟨w, walked, clean, rfl⟩
    · cases h

theorem closure_ok {provider : SourceProvider} {options : Options} {path : String}
    {build : FileBuild} {document : LoadedDocument}
    (h : closure provider options path build c = .ok document next) :
    ∃ stops w, ImportWalk.ofFile provider options path build c = .ok stops w ∧ w.clean = true ∧
      next.registry = w.context.registry ∧
      (ImportWalk.documents 0 (stops.map (·.resolve w.context.registry))).head?.join =
        some document := by
  unfold closure at h
  obtain ⟨stops, mid, followed, h⟩ := bind_eq_ok.1 h
  obtain ⟨w, walked, clean, same⟩ := followImports_ok followed
  subst same
  obtain ⟨rs, last, resolved, h⟩ := bind_eq_ok.1 h
  obtain ⟨all, registry⟩ := resolveStops_ok resolved
  refine ⟨stops, w, walked, clean, ?_⟩
  rw [← all]
  split at h
  · cases h
  · split at h
    next found first =>
      cases h
      exact ⟨registry, first⟩
    · cases h

/-! ## Checks that keep the registry -/

theorem verdict_eq_ok_iff {error : LoadError} {v : Verdict} :
    verdict error v c = .ok () next ↔ v.result = .ok true ∧ c.report v.notes = next := by
  unfold verdict report
  rw [modify_bind]
  cases v.result with
  | error f => simp [throw_eq_ok]
  | ok passed => cases passed <;> simp [pure_eq_ok, throw_eq_ok]

theorem refuse_eq_ok_iff {error : LoadError} {notes : List Diagnostic} {a : Unit} :
    refuse error notes c = .ok a next ↔ notes = [] ∧ c = next := by
  unfold refuse
  split
  next none => simpa [pure_eq_ok] using fun _ => List.isEmpty_iff.1 none
  next some => simpa [fail_ne_ok] using fun none => absurd none (by simpa using some)

theorem checkStructured_eq_ok_iff {options : Options} {d : Declaration} :
    checkStructured options d c = .ok () next ↔
      (options.structured = true → ∀ r ∈ c.registry.records, r.kind ≠ .parcelable) ∧
        c = next := by
  unfold checkStructured
  rw [get_bind, refuse_eq_ok_iff]
  split
  next structured => simp [structured]
  next free => simp [free]

theorem release_eq_ok_iff {path : String} {document : LoadedDocument} {d : Declaration} :
    release path document c = .ok d next ↔ document.types = [d] ∧ c = next := by
  obtain ⟨types, imports⟩ := document
  rcases types with _ | ⟨first, _ | ⟨second, others⟩⟩ <;>
    simp [release, fault, fail_ne_ok, pure_eq_ok, LoadedDocument.types]

theorem numberMethods_eq_ok_iff {path : String} {d numbered : Declaration} :
    numberMethods path d c = .ok numbered next ↔
      Method.idProblem? path [] false d.methods = none ∧
        d.withMethods (Method.numbered d.methods) = numbered ∧ c = next := by
  unfold numberMethods Method.assignIds
  cases Method.idProblem? path [] false d.methods <;>
    simp only [bind_eq_ok, refuse_eq_ok_iff, pure_eq_ok, Option.toList]
  · simp
  · simp

end Load

open Load in
/-- Everything that a load which gives a unit has come through: the input was read, defines one type
in the right place and was joined to what it imports, and the type passed its checks, which changed
neither the registry nor the imports. -/
theorem loadUnit_steps {c last : Context} {provider : SourceProvider} {options : Options}
    {path : String} {u : LoadedUnit} (loaded : loadUnit provider options path c = .ok u last) :
    ∃ read build start written document after d,
      (preprocessedFiles provider options c = .ok () read ∧
        parse provider path read = .ok build start) ∧
      (build.types = [written] ∧ written.kind ≠ .parcelable ∧ written.placementNotes path = []) ∧
      (closure provider options path build start = .ok document after ∧ document.types = [d]) ∧
      (d.checkTypes after.registry).result = .ok true ∧
      (options.structured = true → ∀ r ∈ after.registry.records, r.kind ≠ .parcelable) ∧
      Method.idProblem? path [] false d.methods = none ∧
      (d.withMethods (Method.numbered d.methods)).checkConstants.result = .ok true ∧
      u = ⟨d.withMethods (Method.numbered d.methods), document.imports⟩ ∧
      last.registry = after.registry := by
  unfold loadUnit at loaded
  obtain ⟨_, read, hread, rest⟩ := bind_eq_ok.1 loaded
  obtain ⟨build, start, hparse, rest⟩ := bind_eq_ok.1 rest
  obtain ⟨written, _, honly, rest⟩ := bind_eq_ok.1 rest
  obtain ⟨_, _, hplacement, rest⟩ := bind_eq_ok.1 rest
  obtain ⟨document, after, hclosure, rest⟩ := bind_eq_ok.1 rest
  obtain ⟨d, _, hrelease, rest⟩ := bind_eq_ok.1 rest
  rw [get_bind] at rest
  obtain ⟨_, _, htypes, rest⟩ := bind_eq_ok.1 rest
  obtain ⟨_, _, hstructured, rest⟩ := bind_eq_ok.1 rest
  obtain ⟨numbered, _, hnumbers, rest⟩ := bind_eq_ok.1 rest
  obtain ⟨_, _, hconstants, rest⟩ := bind_eq_ok.1 rest
  obtain ⟨only, defined, rfl⟩ := onlyDeclaration_eq_ok_iff.1 honly
  obtain ⟨placed, rfl⟩ := checkPlacement_eq_ok_iff.1 hplacement
  obtain ⟨single, rfl⟩ := release_eq_ok_iff.1 hrelease
  obtain ⟨types, rfl⟩ := verdict_eq_ok_iff.1 htypes
  obtain ⟨structured, rfl⟩ := checkStructured_eq_ok_iff.1 hstructured
  obtain ⟨numbers, rfl, rfl⟩ := numberMethods_eq_ok_iff.1 hnumbers
  obtain ⟨constants, rfl⟩ := verdict_eq_ok_iff.1 hconstants
  cases rest
  exact ⟨read, build, start, written, document, after, d, ⟨hread, hparse⟩,
    ⟨only, defined, placed⟩, ⟨hclosure, single⟩, types, structured, numbers, constants, rfl, rfl⟩

open Load ImportWalk in
/-- The input of a unit that was loaded was opened, the imports of the unit are those of the first
document of the walk from it, and its type is the only one in that document, with its methods
numbered. -/
theorem loadUnit_ok {c last : Context} (named : c.registry.Named) {provider : SourceProvider}
    {options : Options} {path : String} {u : LoadedUnit}
    (loaded : loadUnit provider options path c = .ok u last) :
    ∃ build start stops w document,
      (preprocessedFiles provider options >>= fun _ => parse provider path) c = .ok build start ∧
      build.IsOpen ∧ start.registry.Named ∧
      ofFile provider options path build start = .ok stops w ∧ w.clean = true ∧
      last.registry = w.context.registry ∧
      (documents 0 (stops.map (·.resolve w.context.registry))).head?.join = some document ∧
      u.imports = document.imports ∧
      ∃ d, document.types = [d] ∧ Method.idProblem? path [] false d.methods = none ∧
        u.declaration = d.withMethods (Method.numbered d.methods) := by
  obtain ⟨read, build, start, -, document, after, d, ⟨hread, hparse⟩, -, ⟨hclosure, single⟩, -, -,
    numbers, -, rfl, kept⟩ := loadUnit_steps loaded
  obtain ⟨named, -⟩ := (preprocessedFiles_honest named provider options).of_ok hread
  obtain ⟨named, opened⟩ := (parse_honest named provider path).of_ok hparse
  obtain ⟨stops, w, walked, clean, registry, first⟩ := closure_ok hclosure
  exact ⟨build, start, stops, w, document, bind_eq_ok.2 ⟨_, read, hread, hparse⟩, opened, named,
    walked, clean, kept.trans registry, first, rfl, d, single, numbers, rfl⟩

end IdlFrontEnd
