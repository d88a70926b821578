import IdlFrontEnd.Proofs.Unit.Guarantees
import IdlFrontEnd.Proofs.Unit.Success
import IdlFrontEnd.Proofs.Unit.WalkBound
import Mathlib.Data.List.Forall2

/-!
# The files of a loaded unit

The documents below the imports of a loaded unit are the files that the walk opened, each in one
place: under the import that it was opened for. An import without a document is one whose class was
known when the walk came to it.
-/
namespace IdlFrontEnd

/-- The document holds the types and the imports of a file that was read without a mistake, the
types with their names resolved. -/
def LoadedDocument.IsOf (provider : SourceProvider) (g : Registry) (path : String)
    (document : LoadedDocument) : Prop :=
  ∃ text file, provider.read path = .ok text ∧ Grammar.SourceFile.ofText path text = (file, []) ∧
    document.types = (file.document.resolve g).types ∧
    document.imports.map LoadedImport.statement = file.imports

/-- The file of an import that has a document. -/
def LoadedImport.attachedFile? (i : LoadedImport) : Option String :=
  i.document.bind fun _ => i.file

namespace ImportWalk

/-- An import of a loaded unit is what an encounter has made of it: it has the document of the file
that was opened, or it has none and its class was known already. -/
structure Joined (provider : SourceProvider) (options : Options) (g : Registry) (i : LoadedImport)
    (e : Encounter) : Prop where
  statement : i.statement = e.statement
  attached : ∀ path, e.opens? provider options = some path →
    i.file = some path ∧ ∃ document, i.document = some document ∧ document.IsOf provider g path
  bare : e.opens? provider options = none → i.document = none ∧ e.known?.isSome = true

theorem Joined.attachedFile? {provider : SourceProvider} {options : Options} {g : Registry}
    {i : LoadedImport} {e : Encounter} (joined : Joined provider options g i e) :
    i.attachedFile? = e.opens? provider options := by
  unfold LoadedImport.attachedFile?
  cases opens : e.opens? provider options with
  | none =>
    rw [(joined.bare opens).1]
    rfl
  | some path =>
    obtain ⟨file, document, held, -⟩ := joined.attached path opens
    rw [held]
    exact file

section
variable {provider : SourceProvider} {options : Options} {path : String} {build : FileBuild}
  {c : Context} {es : List Encounter} {stops : List Stop} {w : Walk}

/-- When the walk has come to its end, the link of an encounter leads to the document of the file
that was opened in it. -/
theorem Course.document_of_opening
    (course : Course provider options es (stops.map Stop.source) (.start provider path build c) w)
    (ended : w.pending = []) (consecutive : Consecutive 0 1 stops) (g : Registry) {e : Encounter}
    (member : e ∈ es) {p : Pending} (opening : e.opening? provider options = some p) :
    ∃ document,
      ((e.link provider options).joined 0 (documents 0 (stops.map (·.resolve g)))
        e.statement).document = some document ∧ document.IsOf provider g p.path := by
  have sources := course.pending
  rw [ended, List.append_nil] at sources
  have found : (stops.map Stop.source)[e.before.opened]? = some p := by
    rw [sources]
    exact course.numbered [⟨path, build⟩] rfl e member p opening
  rw [List.getElem?_map] at found
  obtain ⟨stop, there, rfl⟩ := Option.map_eq_some_iff.1 found
  obtain ⟨-, next, parsed⟩ := Encounter.opening?_eq_some_iff.1 opening
  obtain ⟨text, file, read, silent, document, -⟩ := FileBuild.parse_ok parsed
  have held : (stop.resolve g).build.document = some (file.document.resolve g) := by
    have own : stop.build.document = some file.document := document
    rw [Stop.resolve_document (FileBuild.isOpen_of_parse parsed).phase, own]
    rfl
  have resolved : (stops.map (·.resolve g))[e.before.opened]? = some (stop.resolve g) := by
    rw [List.getElem?_map, there]
    rfl
  obtain ⟨number, later, place⟩ := documents_getElem? resolved 0
  have whole := ((consecutive.resolve g).le_target (List.mem_of_getElem? resolved)).1
  obtain ⟨loaded, joined, types, imports⟩ := joined_of_held held whole number later
  refine ⟨loaded, ?_, text, file, read, silent, types, imports⟩
  simp [Link.joined, Encounter.link, opening, LoadedImport.document, place, joined]

theorem Course.joined
    (course : Course provider options es (stops.map Stop.source) (.start provider path build c) w)
    (ended : w.pending = []) (clean : w.clean = true) (consecutive : Consecutive 0 1 stops)
    (g : Registry) {e : Encounter} (member : e ∈ es) :
    Joined provider options g
      ((e.link provider options).joined 0 (documents 0 (stops.map (·.resolve g))) e.statement) e := by
  have settled := (course.clean clean).2 e member
  constructor
  case statement => rfl
  case bare =>
    intro unopened
    have none := Encounter.opening?_of_unopened unopened
    rcases settled with known | ⟨p, opening, -⟩
    · refine ⟨?_, known⟩
      simp [Link.joined, Encounter.link, none, LoadedImport.document]
    · cases none.symm.trans opening
  case attached =>
    intro file opens
    refine ⟨Encounter.file_of_opens opens, ?_⟩
    rcases settled with known | ⟨p, opening, -⟩
    · rw [(Encounter.opens?_eq_some_iff.1 opens).1] at known
      cases known
    · cases opens.symm.trans (Encounter.opening?_eq_some_iff.1 opening).1
      exact course.document_of_opening ended consecutive g member opening

end

/-- The tour of the first document meets the imports of all stops. -/
theorem tour_perm {provider : SourceProvider} {options : Options} {es : List Encounter}
    {stops : List Stop} {document : LoadedDocument} (consecutive : Consecutive 0 1 stops)
    (joints : stops.flatMap Stop.joints = es.map fun e => (e.statement, e.link provider options))
    (g : Registry)
    (first : (documents 0 (stops.map (·.resolve g))).head?.join = some document) :
    (LoadedImport.tourAll document.imports).Perm <|
      es.map fun e =>
        (e.link provider options).joined 0 (documents 0 (stops.map (·.resolve g))) e.statement := by
  have all := documents_perm (consecutive.resolve g)
  have same : (stops.map (·.resolve g)).flatMap Stop.joints = stops.flatMap Stop.joints := by
    rw [List.flatMap_map, funext (Stop.resolve_joints g)]
  rw [imports_eq (consecutive.resolve g), same, joints, List.map_map] at all
  generalize documents 0 (stops.map (·.resolve g)) = ds at first all ⊢
  have root : (ds.take 1).flatMap tourIn = LoadedImport.tourAll document.imports := by
    cases ds with
    | nil => cases first
    | cons d ds =>
      have own : d = some document := by simpa using first
      simp [own, tourIn, importsIn]
  rw [← root]
  exact all.symm

end ImportWalk

open Load ImportWalk

variable {s : FileStore} {options : Options} {path : String} {u : LoadedUnit} {c : Context}

/-- The walk that a loaded unit comes from, with the imports of the unit as it has left them. -/
theorem loadUnit_course (loaded : loadUnit s.provider options path .empty = .ok u c) :
    ∃ build start stops w,
      (preprocessedFiles s.provider options >>= fun _ => parse s.provider path) .empty =
        .ok build start ∧
      Course s.provider options (met s.provider options path build start)
        (stops.map Stop.source) (.start s.provider path build start) w ∧
      Consecutive 0 1 stops ∧ w.pending = [] ∧ w.clean = true ∧
      c.registry = w.context.registry ∧
      u.imports.map LoadedImport.statement = build.imports ∧
      (LoadedImport.tourAll u.imports).Perm
        ((met s.provider options path build start).map fun e =>
          (e.link s.provider options).joined 0 (documents 0 (stops.map (·.resolve c.registry)))
            e.statement) := by
  have named : Context.empty.registry.Named := Registry.empty_named
  obtain ⟨build, start, stops, w, document, hparse, opened, -, walked, clean, registry, first,
    same, -⟩ := loadUnit_ok named loaded
  obtain ⟨stops', w', hwalk, course, joints, consecutive, ended⟩ :=
    ofFile_course s options path build start
  cases walked.symm.trans hwalk
  rw [← registry] at first
  refine ⟨build, start, stops, w, hparse, course, consecutive, ended, clean, registry, ?_, ?_⟩
  · have sources := course.pending
    rw [ended, List.append_nil] at sources
    cases stops with
    | nil => cases sources
    | cons stop stops =>
      have input : stop.source = ⟨path, build⟩ := (List.cons.inj sources).1
      have own : stop.build = build := congrArg Pending.build input
      obtain ⟨d, hd⟩ := opened.document
      have held : (stop.resolve c.registry).build.document = some (d.resolve c.registry) := by
        rw [Stop.resolve_document (by rw [own]; exact opened.phase), own, hd]
        rfl
      have whole := ((consecutive.resolve c.registry).le_target List.mem_cons_self).1
      rw [List.map_cons, documents_cons] at first
      obtain ⟨joined, isJoined, -, imports⟩ := joined_of_held held whole 1
        (documents 1 (stops.map (·.resolve c.registry)))
      have root : joined = document := by simpa [isJoined] using first
      rw [same, ← root, imports, FileBuild.imports, hd]
      rfl
  · rw [same]
    exact tour_perm consecutive joints c.registry first

/-- The imports of a unit at all depths are the encounters of the walk from its input, each once, and
each as its encounter has left it. So the documents that are attached are those of the files that
were opened after the input, one for each, under imports that lead to these files; and no two files
that were opened are one, the input included. -/
structure LoadedUnit.Complete (provider : SourceProvider) (options : Options) (path : String)
    (u : LoadedUnit) (g : Registry) (build : FileBuild) (start : Context) : Prop where
  input : (preprocessedFiles provider options >>= fun _ => parse provider path) .empty =
    .ok build start
  statements : u.imports.map LoadedImport.statement = build.imports
  encounters : ∃ order, (LoadedImport.tourAll u.imports).Perm order ∧
    List.Forall₂ (Joined provider options g) order (met provider options path build start)
  files : ((LoadedImport.tourAll u.imports).filterMap LoadedImport.attachedFile?).Perm
    (opens provider options (met provider options path build start))
  distinct : (identity provider path ::
    (opens provider options (met provider options path build start)).map
      (identity provider)).Nodup

/-- No file that loading opens is lost or attached twice. -/
theorem loadUnit_complete (s : FileStore) (options : Options) (path : String) (u : LoadedUnit)
    (c : Context) (loaded : loadUnit s.provider options path .empty = .ok u c) :
    ∃ build start, u.Complete s.provider options path c.registry build start := by
  obtain ⟨build, start, stops, w, hparse, course, consecutive, ended, clean, -, statements, order⟩ :=
    loadUnit_course loaded
  have joined : ∀ e ∈ met s.provider options path build start,
      Joined s.provider options c.registry
        ((e.link s.provider options).joined 0 (documents 0 (stops.map (·.resolve c.registry)))
          e.statement) e :=
    fun e member => course.joined ended clean consecutive c.registry member
  refine ⟨build, start, hparse, statements, ⟨_, order, ?_⟩, ?_, course.distinct⟩
  · rw [List.forall₂_map_left_iff, List.forall₂_same]
    exact joined
  · have files := order.filterMap LoadedImport.attachedFile?
    rw [List.filterMap_map] at files
    have same : (met s.provider options path build start).filterMap
        (fun e => ((e.link s.provider options).joined 0
          (documents 0 (stops.map (·.resolve c.registry))) e.statement).attachedFile?) =
        opens s.provider options (met s.provider options path build start) :=
      List.filterMap_congr fun e member => (joined e member).attachedFile?
    rw [← same]
    exact files

/-- Two imports that both lead to a third file, which leads back to one of them. -/
def crossing : FileStore :=
  (((FileStore.empty.insert "a/A.aidl" "package a; import a.B; import a.C; interface A {}").insert
    "a/B.aidl" "package a; import a.D; parcelable B {}").insert
    "a/C.aidl" "package a; import a.D; parcelable C {}").insert
    "a/D.aidl" "package a; import a.B; parcelable D {}"

/-- What `f` says about a unit that was loaded. -/
def ofLoaded {α : Type} (f : LoadedUnit → Context → α) :
    EStateM.Result LoadError Context LoadedUnit → Option α
  | .ok u c => some (f u c)
  | .error _ _ => none

theorem exists_of_ofLoaded {α : Type} {f : LoadedUnit → Context → α} {a : α}
    {result : EStateM.Result LoadError Context LoadedUnit} (h : ofLoaded f result = some a) :
    ∃ u c, result = .ok u c ∧ f u c = a := by
  cases result with
  | ok u c => exact ⟨u, c, rfl, Option.some.inj h⟩
  | error e c => cases h

theorem crossing_loaded :
    ∃ u c, loadUnit crossing.provider searchHere "a/A.aidl" .empty = .ok u c ∧
      (LoadedImport.tourAll u.imports).map (fun i => (i.statement.className, i.attachedFile?)) =
        [("a.B", some "./a/B.aidl"), ("a.D", some "./a/D.aidl"), ("a.B", none),
          ("a.C", some "./a/C.aidl"), ("a.D", none)] := by
  have evaluated :
      ofLoaded (fun u _ => (LoadedImport.tourAll u.imports).map fun i =>
          (i.statement.className, i.attachedFile?))
        (loadUnit crossing.provider searchHere "a/A.aidl" .empty) =
      some [("a.B", some "./a/B.aidl"), ("a.D", some "./a/D.aidl"), ("a.B", none),
        ("a.C", some "./a/C.aidl"), ("a.D", none)] := by
    decide +kernel
  exact exists_of_ofLoaded evaluated

theorem crossing_complete :
    ∃ u c, loadUnit crossing.provider searchHere "a/A.aidl" .empty = .ok u c ∧
      (LoadedImport.tourAll u.imports).map (fun i => (i.statement.className, i.attachedFile?)) =
        [("a.B", some "./a/B.aidl"), ("a.D", some "./a/D.aidl"), ("a.B", none),
          ("a.C", some "./a/C.aidl"), ("a.D", none)] ∧
      ∃ build start,
        u.Complete crossing.provider searchHere "a/A.aidl" c.registry build start := by
  obtain ⟨u, c, loaded, imports⟩ := crossing_loaded
  exact ⟨u, c, loaded, imports, loadUnit_complete _ _ _ u c loaded⟩

end IdlFrontEnd
