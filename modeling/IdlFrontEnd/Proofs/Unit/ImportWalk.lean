import IdlFrontEnd.Proofs.Build
import IdlFrontEnd.Proofs.Unit.Loaded
import IdlFrontEnd.Unit.ImportWalk

/-!
# Invariants of following imports

The walk is clean exactly as long as it has reported nothing. The delicate case is an import that
leads to a file known to be broken: it is not reported again, and still fails the walk, which is
right because the broken file was reported when it was opened. Every file that waits or that was a
stop is open, so no request to it is ever out of turn and the walk never ends early.
-/
namespace IdlFrontEnd.ImportWalk

section
variable {provider : SourceProvider} {options : Options}

theorem followAll_cons {i : ImportStatement} {is : List ImportStatement} {w mid next : Walk}
    {link : Link} {links : List Link} (first : follow provider options i w = .ok link mid)
    (others : followAll provider options is mid = .ok links next) :
    followAll provider options (i :: is) w = .ok (link :: links) next := by
  rw [followAll, bind_of_ok first, bind_of_ok others]
  rfl

theorem run_of_waiting {count : Nat} {w mid next : Walk} {first : Pending} {pending : List Pending}
    {links : List Link} {stops : List Stop} (waiting : w.pending = first :: pending)
    (followed : followAll provider options first.build.imports { w with pending } = .ok links mid)
    (others : run provider options count mid = .ok stops next) :
    run provider options (count + 1) w = .ok (⟨first.path, first.build, links⟩ :: stops) next := by
  rw [run, get_bind, waiting]
  dsimp only
  rw [modify_bind, bind_of_ok followed, bind_of_ok others]
  rfl

theorem run_of_ended {count : Nat} {w : Walk} (ended : w.pending = []) :
    run provider options (count + 1) w = .ok [] w := by
  rw [run, get_bind, ended]
  rfl

end

/-- What holds of the walk after it has reported `notes`. -/
structure Told (before : Reporter) (notes : List Diagnostic) (w : Walk) : Prop where
  reporter : w.context.reporter = before.emitAll notes
  errors : AllErrors notes
  clean : w.clean = true ↔ notes = []
  broken : w.broken ≠ [] → notes ≠ []
  named : w.context.registry.Named
  opened : ∀ p ∈ w.pending, p.build.IsOpen

variable {before : Reporter} {notes : List Diagnostic} {w : Walk}

theorem Told.start {c : Context} {build : FileBuild} (named : c.registry.Named)
    (opened : build.IsOpen) (provider : SourceProvider) (path : String) :
    Told c.reporter [] (.start provider path build c) := by
  refine ⟨rfl, .nil, by simp [Walk.start], by simp [Walk.start], named, ?_⟩
  intro p member
  rw [List.mem_singleton.1 member]
  exact opened

/-- A failure is reported, unless there was one before. -/
theorem Told.fail {more : List Diagnostic} (told : Told before notes w) (errors : AllErrors more)
    (some : notes ++ more ≠ []) : Told before (notes ++ more) (w.fail more) := by
  refine ⟨?_, told.errors.append errors, ?_, fun _ => some, told.named, told.opened⟩
  · simp [Walk.fail, Context.report, told.reporter, Reporter.emitAll_append]
  · simp only [Walk.fail, Bool.false_eq_true, false_iff]
    exact some

theorem placementNotes_errors (d : Declaration) (path : String) :
    AllErrors (d.placementNotes path) := by
  unfold Declaration.placementNotes
  split
  · exact .nil
  · exact .single rfl

theorem Told.add {path : String} {build : FileBuild} (told : Told before notes w)
    (opened : build.IsOpen) :
    ∃ more, Told before (notes ++ more) (w.add path build) := by
  have errors : AllErrors (build.types.flatMap (·.placementNotes path)) :=
    .flatMap (fun d => placementNotes_errors d path) _
  refine ⟨_, ?_, told.errors.append errors, ?_, ?_, told.named, ?_⟩
  · simp [Walk.add, Context.report, told.reporter, Reporter.emitAll_append]
  · simp [Walk.add, told.clean, List.isEmpty_iff]
  · intro failed none
    exact told.broken failed (List.append_eq_nil_iff.1 none).1
  · intro p member
    rcases List.mem_append.1 member with member | member
    · exact told.opened p member
    · rw [List.mem_singleton.1 member]
      exact opened

theorem openFor_told (provider : SourceProvider) (i : ImportStatement) (path : String)
    (told : Told before notes w) :
    ∃ link next more, openFor provider i path w = .ok link next ∧
      Told before (notes ++ more) next := by
  obtain ⟨added, adds, outcome⟩ := FileBuild.parse_outcome w.context provider path
  unfold openFor
  generalize FileBuild.fresh.parse w.context provider path = parsed at adds outcome ⊢
  obtain ⟨result, build, context⟩ := parsed
  have reporter : context.reporter = before.emitAll (notes ++ added) := by
    rw [adds.reporter, told.reporter, Reporter.emitAll_append]
  cases outcome with
  | ok opened =>
    have clean : Told before notes
        { w with context, visited := identity provider path :: w.visited } := by
      refine ⟨?_, told.errors, told.clean, told.broken, adds.named told.named, told.opened⟩
      simpa using reporter
    obtain ⟨more, next⟩ := clean.add opened
    exact ⟨_, _, more, rfl, next⟩
  | @error failure _ _ mild _ =>
    let failed : Walk :=
      { w with
        context
        visited := identity provider path :: w.visited
        broken := identity provider path :: w.broken }
    let report := Diagnostic.atPlace i.location (.importFailed path i.className)
    refine ⟨⟨some path, none⟩, failed.fail [report], added ++ [report], ?_, ?_⟩
    · cases failure with
      | fatal f => exact absurd rfl (mild f)
      | unreadable | malformed | unresolved => rfl
    · refine ⟨?_, told.errors.append (adds.errors.append (.single rfl)), by simp [Walk.fail],
        by simp, adds.named told.named, told.opened⟩
      simp [Walk.fail, Context.report, failed, reporter, Reporter.emitAll_append]

theorem follow_told (provider : SourceProvider) (options : Options) (i : ImportStatement)
    (told : Told before notes w) :
    ∃ link next more, follow provider options i w = .ok link next ∧
      Told before (notes ++ more) next := by
  unfold follow
  dsimp only
  split
  · refine ⟨_, w, [], rfl, ?_⟩
    rwa [List.append_nil]
  · split
    · exact ⟨_, _, _, rfl, told.fail (.single rfl) (by simp)⟩
    next path found =>
      split
      · split
        next known =>
          -- nothing is reported here, but the file that broke was reported before
          have some := told.broken (List.ne_nil_of_mem known)
          exact ⟨_, _, [], rfl, told.fail .nil (by simpa using some)⟩
        · exact ⟨_, _, _, rfl, told.fail (.single rfl) (by simp)⟩
      · exact openFor_told provider i path told

theorem followAll_told (provider : SourceProvider) (options : Options) (is : List ImportStatement)
    (told : Told before notes w) :
    ∃ links next more, followAll provider options is w = .ok links next ∧
      Told before (notes ++ more) next := by
  induction is generalizing w notes with
  | nil =>
    refine ⟨[], w, [], rfl, ?_⟩
    rwa [List.append_nil]
  | cons i is ih =>
    obtain ⟨link, mid, added, hfirst, first⟩ := follow_told provider options i told
    obtain ⟨links, next, more, hothers, others⟩ := ih first
    refine ⟨link :: links, next, added ++ more, followAll_cons hfirst hothers, ?_⟩
    rwa [List.append_assoc] at others

theorem run_told (provider : SourceProvider) (options : Options) (count : Nat)
    (told : Told before notes w) :
    ∃ stops next more, run provider options count w = .ok stops next ∧
      Told before (notes ++ more) next ∧ (∀ stop ∈ stops, stop.build.IsOpen) ∧
      ∀ first ∈ w.pending.head?, count ≠ 0 →
        ∃ links others, stops = ⟨first.path, first.build, links⟩ :: others := by
  induction count generalizing w notes with
  | zero =>
    refine ⟨[], w, [], rfl, ?_, by simp, fun _ _ some => absurd rfl some⟩
    rwa [List.append_nil]
  | succ count ih =>
    cases waiting : w.pending with
    | nil =>
      refine ⟨[], w, [], run_of_ended waiting, ?_, by simp, by simp⟩
      rwa [List.append_nil]
    | cons first pending =>
      have opened := told.opened
      rw [waiting] at opened
      have rest : Told before notes { w with pending } :=
        ⟨told.reporter, told.errors, told.clean, told.broken, told.named,
          fun p member => opened p (List.mem_cons_of_mem first member)⟩
      obtain ⟨links, mid, added, hlinks, followed⟩ :=
        followAll_told provider options first.build.imports rest
      obtain ⟨stops, next, more, hstops, last, each, -⟩ := ih followed
      refine ⟨⟨first.path, first.build, links⟩ :: stops, next, added ++ more,
        run_of_waiting waiting hlinks hstops, ?_, ?_, ?_⟩
      · rwa [List.append_assoc] at last
      · intro stop member
        rcases List.mem_cons.1 member with rfl | member
        · exact opened first List.mem_cons_self
        · exact each stop member
      · intro other same _
        cases same
        exact ⟨links, stops, rfl⟩

/-- The walk from an open file comes to its end, and that file is its first stop. -/
theorem ofFile_told {c : Context} {build : FileBuild} (named : c.registry.Named)
    (opened : build.IsOpen) (provider : SourceProvider) (options : Options) (path : String) :
    ∃ links others next notes,
      ofFile provider options path build c = .ok (⟨path, build, links⟩ :: others) next ∧
        Told c.reporter notes next ∧ ∀ stop ∈ others, stop.build.IsOpen := by
  obtain ⟨stops, next, notes, hrun, told, each, starts⟩ :=
    run_told provider options (provider.limit + 1) (.start named opened provider path)
  obtain ⟨links, others, rfl⟩ := starts ⟨path, build⟩ rfl (Nat.succ_ne_zero _)
  exact ⟨links, others, next, notes, hrun, told,
    fun stop member => each stop (List.mem_cons_of_mem _ member)⟩

/-! ## The documents of the stops -/

/-- What holds of all declarations of all stops holds of all that the documents of the stops and the
documents below these declare. -/
theorem documents_forall {P : Declaration → Prop} {stops : List Stop}
    (each : ∀ stop ∈ stops, ∀ d ∈ stop.build.types, P d) (first : Nat) {document : LoadedDocument}
    (member : some document ∈ documents first stops) :
    (∀ d ∈ document.types, P d) ∧
      ∀ inner, Attached document.imports inner → ∀ d ∈ inner.types, P d := by
  induction stops generalizing first document with
  | nil => cases member
  | cons stop stops ih =>
    have below := fun n => @ih (fun s member => each s (List.mem_cons_of_mem stop member)) n
    have own := each stop List.mem_cons_self
    unfold documents at member
    dsimp only at member
    rcases List.mem_cons.1 member with joined | member
    · obtain ⟨d, held, rfl⟩ := Option.map_eq_some_iff.1 joined.symm
      have later {i : LoadedImport} {outer : LoadedDocument}
          (inside : i ∈ (d.imports.zip stop.links).map fun pair =>
            pair.2.joined (first + 1) (documents (first + 1) stops) pair.1)
          (attached : i.document = some outer) : some outer ∈ documents (first + 1) stops := by
        obtain ⟨pair, -, rfl⟩ := List.mem_map.1 inside
        obtain ⟨n, -, found⟩ := Option.bind_eq_some_iff.1 attached
        exact List.mem_of_getElem? (Option.join_eq_some_iff.1 found)
      have types : stop.build.types = d.types := by
        simp [FileBuild.types, show stop.build.document = some d from held]
      rw [types] at own
      refine ⟨own, ?_⟩
      intro inner attached
      cases attached with
      | direct inside attached => exact (below _ (later inside attached)).1
      | deeper inside attached further => exact (below _ (later inside attached)).2 inner further
    · exact below (first + 1) member

/-- The first document is that of the first stop. -/
theorem documents_head {stop : Stop} {d : Document} (held : stop.build.document = some d)
    (first : Nat) (stops : List Stop) :
    ∃ document, (documents first (stop :: stops)).head?.join = some document ∧
      some document ∈ documents first (stop :: stops) ∧ document.types = d.types := by
  unfold documents
  simp only [FileBuild.takeDocument, held, Option.map_some]
  exact ⟨_, rfl, List.mem_cons_self, rfl⟩

end IdlFrontEnd.ImportWalk
