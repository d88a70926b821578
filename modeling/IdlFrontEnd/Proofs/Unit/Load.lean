import IdlFrontEnd.Proofs.Check
import IdlFrontEnd.Proofs.Unit.ImportWalk
import IdlFrontEnd.Unit.Listing

/-!
# Steps of loading, and what they report

A step of loading is honest if it reports nothing where it succeeds, reports errors and no
fault where it fails, and fails in silence only for a file of unstructured parcelables. A sequence
of honest steps is honest. Some steps are honest only in a state that the steps before them
establish: resolving needs open builds, and the checks need resolved declarations.
-/
namespace IdlFrontEnd

/-- The error comes from a fault of the program and not from the input. -/
def LoadError.IsFault : LoadError → Prop
  | .fatal _ => True
  | .parseError (.fatal _) => True
  | _ => False

namespace Load

/-- What an honest step makes of a context, with `post` for its value. -/
inductive Honest {α : Type} (c : Context) (post : α → Context → Prop) :
    EStateM.Result LoadError Context α → Prop
  | ok {a : α} {next : Context} (reporter : next.reporter = c.reporter)
      (named : next.registry.Named) (result : post a next) : Honest c post (.ok a next)
  | error {e : LoadError} {next : Context} {notes : List Diagnostic}
      (reporter : next.reporter = c.reporter.emitAll notes) (errors : AllErrors notes)
      (told : notes = [] ↔ e = .foundParcelable) (mild : ¬ e.IsFault) :
      Honest c post (.error e next)

variable {α β : Type} {c : Context}

theorem Honest.bind {P : α → Context → Prop} {Q : β → Context → Prop} {x : Load α}
    {f : α → Load β} (first : Honest c P (x c))
    (next : ∀ a mid, mid.registry.Named → P a mid → Honest mid Q (f a mid)) :
    Honest c Q ((x >>= f) c) := by
  cases h : x c with
  | error e mid =>
    rw [h] at first
    rw [bind_of_error h]
    cases first with
    | error reporter errors told mild => exact .error reporter errors told mild
  | ok a mid =>
    rw [h] at first
    rw [bind_of_ok h]
    cases first with
    | ok reporter named result =>
      have second := next a mid named result
      generalize f a mid = last at second
      cases second with
      | ok after named result => exact .ok (after.trans reporter) named result
      | error after errors told mild =>
        rw [reporter] at after
        exact .error after errors told mild

theorem fail_honest {P : α → Context → Prop} {error : LoadError} {notes : List Diagnostic}
    (errors : AllErrors notes) (some : notes ≠ []) (other : error ≠ .foundParcelable)
    (mild : ¬ error.IsFault) : Honest c P ((fail error notes : Load α) c) :=
  .error rfl errors ⟨fun none => absurd none some, fun same => absurd same other⟩ mild

theorem refuse_honest (named : c.registry.Named) {error : LoadError} {notes : List Diagnostic}
    (errors : AllErrors notes) (other : error ≠ .foundParcelable) (mild : ¬ error.IsFault) :
    Honest c (fun _ next => next = c) (refuse error notes c) := by
  unfold refuse
  split
  · exact .ok rfl named rfl
  next loud =>
    refine fail_honest errors ?_ other mild
    rintro rfl
    exact loud rfl

theorem verdict_honest (named : c.registry.Named) {error : LoadError} {v : Verdict}
    (plain : v.Plain) (other : error ≠ .foundParcelable) (mild : ¬ error.IsFault) :
    Honest c (fun _ next => next = c) (verdict error v c) := by
  obtain ⟨notes, rfl, errors⟩ := plain
  cases notes with
  | nil =>
    exact .ok rfl named rfl
  | cons note notes =>
    exact .error rfl errors ⟨fun none => absurd none (List.cons_ne_nil _ _),
      fun same => absurd same other⟩ mild

/-! ## Preprocessed files and the input -/

theorem read_adds (provider : SourceProvider) (path : String) (c : Context) :
    ∃ notes, c.Adds notes (Preprocessed.read provider path c).2 ∧
      ((Preprocessed.read provider path c).1 = true ↔ notes = []) := by
  unfold Preprocessed.read
  cases provider.read path with
  | error e => exact ⟨_, .report c (.single rfl), by simp⟩
  | ok text =>
    have named (known : c.registry.Named) := @Preprocessed.addLines_named path 1 _
      (Text.lines text) known
    have errors := Preprocessed.addLines_errors path 1 c.registry (Text.lines text)
    dsimp only
    generalize Preprocessed.addLines path 1 c.registry (Text.lines text) = read at named errors
    obtain ⟨registry, problem⟩ := read
    refine ⟨problem.toList, ⟨rfl, errors, named⟩, ?_⟩
    cases problem <;> simp

theorem readAll_adds (provider : SourceProvider) (paths : List String) (c : Context) :
    ∃ notes, c.Adds notes (Preprocessed.readAll provider paths c).2 ∧
      ((Preprocessed.readAll provider paths c).1 = true ↔ notes = []) := by
  induction paths generalizing c with
  | nil => exact ⟨[], .refl c, by simp [Preprocessed.readAll]⟩
  | cons path paths ih =>
    obtain ⟨notes, first, passed⟩ := read_adds provider path c
    obtain ⟨more, others, allPassed⟩ := ih (Preprocessed.read provider path c).2
    refine ⟨notes ++ more, first.trans others, ?_⟩
    simp [Preprocessed.readAll, passed, allPassed]

theorem preprocessedFiles_honest (named : c.registry.Named) (provider : SourceProvider)
    (options : Options) :
    Honest c (fun _ _ => True) (preprocessedFiles provider options c) := by
  obtain ⟨notes, adds, passed⟩ := readAll_adds provider options.preprocessedFiles c
  unfold preprocessedFiles
  rw [get_bind]
  generalize Preprocessed.readAll provider options.preprocessedFiles c = read at adds passed ⊢
  obtain ⟨ok, next⟩ := read
  dsimp only
  rw [set_bind]
  cases ok with
  | true =>
    have none := passed.1 rfl
    refine .ok ?_ (adds.named named) trivial
    rw [adds.reporter, none]
    rfl
  | false =>
    refine .error adds.reporter adds.errors ⟨fun none => ?_, by simp⟩ id
    exact absurd (passed.2 none) (by simp)

theorem parse_honest (named : c.registry.Named) (provider : SourceProvider) (path : String) :
    Honest c (fun build _ => build.IsOpen) (parse provider path c) := by
  obtain ⟨notes, adds, outcome⟩ := FileBuild.parse_outcome c provider path
  unfold parse
  rw [get_bind]
  generalize FileBuild.fresh.parse c provider path = parsed at adds outcome ⊢
  obtain ⟨result, build, next⟩ := parsed
  dsimp only
  rw [set_bind]
  cases outcome with
  | ok opened =>
    exact .ok adds.reporter (adds.named named) opened
  | @error failure _ _ mild some =>
    cases failure with
    | fatal f => exact absurd rfl (mild f)
    | unreadable | malformed | unresolved =>
      exact .error adds.reporter adds.errors
        ⟨fun none => absurd none some, by simp [LoadError.ofParse]⟩ id

theorem onlyDeclaration_honest (named : c.registry.Named) (path : String)
    (types : List Declaration) :
    Honest c (fun d next => types = [d] ∧ next = c) (onlyDeclaration path types c) := by
  unfold onlyDeclaration
  split
  · exact fail_honest (.single rfl) (by simp) (by simp) id
  · split
    · exact .error rfl .nil (by simp) id
    · split
      · exact .ok rfl named ⟨rfl, rfl⟩
      · exact fail_honest (.single rfl) (by simp) (by simp) id

theorem checkPlacement_honest (named : c.registry.Named) (path package : String)
    (d : Declaration) : Honest c (fun _ next => next = c) (checkPlacement path package d c) := by
  have errors := ImportWalk.placementNotes_errors d path
  unfold checkPlacement
  split
  · exact .ok rfl named rfl
  · exact fail_honest (errors.append (.single rfl)) (by simp) (by simp) id

/-! ## Imports and names -/

theorem followImports_honest {build : FileBuild} (named : c.registry.Named)
    (opened : build.IsOpen) (provider : SourceProvider) (options : Options) (path : String) :
    Honest c
      (fun stops _ => ∃ links others, stops = ⟨path, build, links⟩ :: others ∧
        ∀ stop ∈ stops, stop.build.IsOpen)
      (followImports provider options path build c) := by
  obtain ⟨links, others, next, notes, hwalk, told, each⟩ :=
    ImportWalk.ofFile_told named opened provider options path
  unfold followImports
  rw [hwalk]
  dsimp only
  split
  next clean =>
    have none := told.clean.1 clean
    refine .ok ?_ told.named ⟨links, others, rfl, ?_⟩
    · rw [told.reporter, none]
      rfl
    · intro stop member
      rcases List.mem_cons.1 member with rfl | member
      · exact opened
      · exact each stop member
  next failed =>
    exact .error told.reporter told.errors
      ⟨fun none => absurd (told.clean.2 none) failed, by simp⟩ id

/-- Resolving a stop passes exactly if it is silent, and never ends loading by itself. -/
theorem resolveStop_told {stop : ImportWalk.Stop} (named : c.registry.Named)
    (opened : stop.build.IsOpen) :
    ∃ build passed notes, resolveStop stop c = .ok ({ stop with build }, passed) (c.report notes) ∧
      AllErrors notes ∧ (passed = true ↔ notes = []) ∧
      build.document = stop.build.document.map (·.resolve c.registry) ∧
      (passed = true → ∀ d ∈ build.types, d.Resolved c.registry) := by
  obtain ⟨notes, errors, reported, document, outcome⟩ := FileBuild.resolve_outcome opened named
  unfold resolveStop
  rw [get_bind]
  generalize stop.build.resolve c = answer at reported document outcome ⊢
  obtain ⟨result, build, next⟩ := answer
  dsimp only at reported document outcome ⊢
  rw [reported, set_bind]
  cases outcome with
  | ok resolved => exact ⟨build, true, [], rfl, errors, by simp, document, fun _ => resolved⟩
  | @error failure _ _ mild some =>
    refine ⟨build, false, notes, ?_, errors, by simpa using some, document, by simp⟩
    cases failure with
    | fatal f => exact absurd rfl (mild f)
    | unreadable | malformed | unresolved => rfl

theorem resolveStops_told {stops : List ImportWalk.Stop} (named : c.registry.Named)
    (opened : ∀ stop ∈ stops, stop.build.IsOpen) :
    ∃ resolved notes, resolveStops stops c = .ok resolved (c.report notes) ∧ AllErrors notes ∧
      (resolved.all Prod.snd = true ↔ notes = []) ∧
      resolved.map (fun r => r.1.build.document) =
        stops.map (fun stop => stop.build.document.map (·.resolve c.registry)) ∧
      (resolved.all Prod.snd = true →
        ∀ r ∈ resolved, ∀ d ∈ r.1.build.types, d.Resolved c.registry) := by
  induction stops generalizing c with
  | nil =>
    refine ⟨[], [], ?_, .nil, by simp, rfl, by simp⟩
    rw [Context.report_nil]
    rfl
  | cons stop stops ih =>
    obtain ⟨build, passed, notes, hstop, errors, silent, document, resolved⟩ :=
      resolveStop_told named (opened stop List.mem_cons_self)
    have rest : (c.report notes).registry.Named := named
    obtain ⟨others, more, hstops, moreErrors, moreSilent, documents, othersResolved⟩ :=
      ih rest fun s member => opened s (List.mem_cons_of_mem stop member)
    refine ⟨({ stop with build }, passed) :: others, notes ++ more, ?_, errors.append moreErrors,
      ?_, ?_, ?_⟩
    · unfold resolveStops
      rw [bind_of_ok hstop, bind_of_ok hstops, Context.report_append]
      rfl
    · simp [silent, moreSilent]
    · simp [document, documents, Context.report]
    · intro all r member
      simp only [List.all_cons, Bool.and_eq_true] at all
      rcases List.mem_cons.1 member with rfl | member
      · exact resolved all.1
      · exact othersResolved all.2 r member

end Load

/-- Every type in the document and in all documents below it has a canonical name that is known. -/
structure LoadedDocument.Resolved (g : Registry) (document : LoadedDocument) : Prop where
  own : ∀ d ∈ document.types, d.Resolved g
  below : ∀ inner, Attached document.imports inner → ∀ d ∈ inner.types, d.Resolved g

namespace Load

variable {c : Context}

theorem closure_honest {build : FileBuild} (named : c.registry.Named) (opened : build.IsOpen)
    (provider : SourceProvider) (options : Options) (path : String) :
    Honest c
      (fun document next => document.types.length = build.types.length ∧
        document.Resolved next.registry)
      (closure provider options path build c) := by
  unfold closure
  refine (followImports_honest named opened provider options path).bind ?_
  rintro _ mid named ⟨links, others, rfl, each⟩
  obtain ⟨resolved, notes, hresolve, errors, silent, documents, settled⟩ :=
    resolveStops_told named each
  rw [bind_of_ok hresolve]
  by_cases all : resolved.all Prod.snd = true
  · obtain rfl := silent.1 all
    rw [Context.report_nil, if_neg fun failed => failed all]
    cases resolved with
    | nil => cases documents
    | cons first resolved =>
      obtain ⟨d, hd⟩ := opened.document
      have held : first.1.build.document = some (d.resolve mid.registry) := by
        simpa [hd] using (List.cons.inj documents).1
      obtain ⟨document, hhead, member, types⟩ :=
        ImportWalk.documents_head held 0 (resolved.map Prod.fst)
      have stopsResolved : ∀ stop ∈ (first :: resolved).map Prod.fst,
          ∀ d ∈ stop.build.types, d.Resolved mid.registry := by
        intro stop inside
        obtain ⟨r, there, rfl⟩ := List.mem_map.1 inside
        exact settled all r there
      have known := ImportWalk.documents_forall stopsResolved 0 member
      dsimp only
      rw [List.map_cons, hhead]
      refine .ok rfl named ⟨?_, known.1, known.2⟩
      simp [types, Document.resolve, Document.mapTypes, FileBuild.types, hd]
  · have some : notes ≠ [] := fun none => all (silent.2 none)
    rw [if_pos all]
    exact .error rfl errors ⟨fun none => absurd none some, by simp⟩ id

theorem release_honest (named : c.registry.Named) (path : String) {document : LoadedDocument}
    (one : document.types.length = 1) :
    Honest c (fun d next => d ∈ document.types ∧ next = c) (release path document c) := by
  obtain ⟨d, single⟩ := List.length_eq_one_iff.1 one
  unfold release
  rw [single]
  exact .ok rfl named ⟨List.mem_singleton.2 rfl, rfl⟩

theorem checkStructured_honest (named : c.registry.Named) (options : Options) (d : Declaration) :
    Honest c (fun _ next => next = c) (checkStructured options d c) := by
  unfold checkStructured
  rw [get_bind]
  refine refuse_honest named ?_ (by simp) id
  split
  · exact .map (fun _ => rfl) _
  · exact .nil

theorem numberMethods_honest (named : c.registry.Named) {d : Declaration} {g : Registry}
    (resolved : d.Resolved g) (path : String) :
    Honest c (fun e next => e.Resolved g ∧ next = c) (numberMethods path d c) := by
  have errors := Method.assignIds_errors path d.methods
  have same := Method.assignIds_types path d.methods
  unfold numberMethods
  dsimp only
  refine (refuse_honest named errors (by simp) id).bind ?_
  rintro _ mid named rfl
  exact .ok rfl named ⟨resolved.withMethods same, rfl⟩

end Load

/-- Every type in the unit and in all documents below it has a canonical name that is known. -/
structure LoadedUnit.Resolved (g : Registry) (u : LoadedUnit) : Prop where
  own : u.declaration.Resolved g
  below : ∀ inner, Attached u.imports inner → ∀ d ∈ inner.types, d.Resolved g

open Load in
/-- Loading a unit is honest, and a unit that is loaded is resolved. -/
theorem loadUnit_honest {c : Context} (named : c.registry.Named) (provider : SourceProvider)
    (options : Options) (path : String) :
    Honest c (fun u next => u.Resolved next.registry) (loadUnit provider options path c) := by
  unfold loadUnit
  refine (preprocessedFiles_honest named provider options).bind ?_
  intro _ c named _
  refine (parse_honest named provider path).bind ?_
  intro build c named opened
  refine (onlyDeclaration_honest named path build.types).bind ?_
  rintro written c named ⟨only, rfl⟩
  refine (checkPlacement_honest named path build.packageName written).bind ?_
  rintro _ c named rfl
  refine (closure_honest named opened provider options path).bind ?_
  rintro document c named ⟨one, documentResolved⟩
  rw [only, List.length_singleton] at one
  refine (release_honest named path one).bind ?_
  rintro d c named ⟨member, rfl⟩
  have resolved := documentResolved.own d member
  rw [get_bind]
  have types := Declaration.checkTypes_plain fun _ => resolved.isFullyResolved
  refine (verdict_honest named (types _) (by simp) id).bind ?_
  rintro _ c named rfl
  refine (checkStructured_honest named options d).bind ?_
  rintro _ c named rfl
  refine (numberMethods_honest named resolved path).bind ?_
  rintro numbered c named ⟨numberedResolved, rfl⟩
  refine (verdict_honest named numberedResolved.checkConstants_plain (by simp) id).bind ?_
  rintro _ c named rfl
  exact .ok rfl named ⟨numberedResolved, documentResolved.below⟩

namespace Load

theorem forInputs_honest {α : Type} {step : String → Load α} {P : α → Context → Prop}
    (each : ∀ path c, c.registry.Named → Honest c P (step path c)) (paths : List String)
    {c : Context} (named : c.registry.Named) :
    Honest c (fun _ _ => True) (forInputs step paths c) := by
  induction paths generalizing c with
  | nil => exact .ok rfl named trivial
  | cons path paths ih =>
    have first := each path { c with registry := .empty } Registry.empty_named
    have all : Honest { c with registry := .empty } (fun _ _ => True)
        ((step path >>= fun a => do return a :: (← forInputs step paths))
          { c with registry := .empty }) := by
      refine first.bind fun a mid named _ => ?_
      refine (ih named).bind fun as last named _ => ?_
      exact .ok rfl named trivial
    unfold forInputs
    rw [modify_bind]
    -- an honest step is judged by the reporter, which is the same on the empty registry
    generalize (step path >>= fun a => do return a :: (← forInputs step paths))
      { c with registry := .empty } = result at all ⊢
    cases all with
    | ok reporter named result => exact .ok reporter named result
    | error reporter errors told mild => exact .error reporter errors told mild

/-- A step for each input comes to what it comes to alone, as far as one can see, if nothing that
an input leaves behind for the next one makes a difference. -/
theorem forInputs_separate {α β : Type} {step : String → Load α}
    {alone : String → Except LoadError β} {view : α → β} (start : Context → Prop)
    (free : ∀ path c, start c →
      (outcome (step path { c with registry := .empty })).map view = alone path)
    (next : ∀ path c a mid, start c → step path { c with registry := .empty } = .ok a mid →
      start mid)
    (paths : List String) {c : Context} (begins : start c) :
    (outcome (forInputs step paths c)).map (List.map view) = paths.mapM alone := by
  induction paths generalizing c with
  | nil => rfl
  | cons path paths ih =>
    have first := free path c begins
    unfold forInputs
    rw [modify_bind, List.mapM_cons, ← first]
    cases h : step path { c with registry := .empty } with
    | error e mid =>
      rw [bind_of_error h]
      rfl
    | ok a mid =>
      rw [bind_of_ok h]
      have others := ih (next path c a mid begins h)
      cases rest : forInputs step paths mid with
      | error e last =>
        rw [bind_of_error rest]
        rw [rest] at others
        rw [← others]
        rfl
      | ok as last =>
        rw [bind_of_ok rest]
        rw [rest] at others
        rw [← others]
        rfl

end Load

end IdlFrontEnd
