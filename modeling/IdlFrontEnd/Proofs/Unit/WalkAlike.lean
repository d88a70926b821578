import IdlFrontEnd.Proofs.BuildAlike
import IdlFrontEnd.Proofs.BuildOrder
import IdlFrontEnd.Proofs.Unit.WalkBound

/-!
# Following imports in stores that are alike

If two stores hold alike files under the same paths, and the classes that these import lead to the
same paths, then following imports takes the same steps in both: the same files are opened in the
same order with the same links, and what is reported is alike. How many turns a walk may take makes
no difference, as it ends before.
-/
namespace IdlFrontEnd

open Grammar (SourceFile)

/-- The class of the import leads to the same path with either store and options. -/
def LeadsAlike (s s' : FileStore) (o o' : Options) (i : ImportStatement) : Prop :=
  ImportSearch.file? s.provider o i.className = ImportSearch.file? s'.provider o' i.className

/-- Two stores, each with the options of a run, that loading cannot tell apart but by places. -/
structure SourcesAlike (s s' : FileStore) (o o' : Options) : Prop where
  reads : ∀ path, ReadsAlike path (s.read path) (s'.read path)
  listed : o.preprocessedFiles = o'.preprocessedFiles
  listings : ∀ path ∈ o.preprocessedFiles, s.read path = s'.read path
  structured : o.structured = o'.structured
  leads : ∀ path file, SourceFile.read? s.provider path = some file →
    ∀ i ∈ file.imports, LeadsAlike s s' o o' i

/-- What can be read in one store is stored in both. -/
theorem ReadsAlike.contains {s s' : FileStore} {path : String}
    (reads : ReadsAlike path (s.read path) (s'.read path)) :
    s.contains path = s'.contains path := by
  unfold FileStore.read at reads
  unfold FileStore.contains
  cases h : s.find? path with
  | none =>
    cases h' : s'.find? path with
    | none => rfl
    | some text =>
      rw [h, h'] at reads
      cases reads
  | some text =>
    cases h' : s'.find? path with
    | none =>
      rw [h, h'] at reads
      cases reads
    | some text' => rfl

namespace SourcesAlike

variable {s s' : FileStore} {o o' : Options}

/-- With itself. -/
theorem refl (s : FileStore) (o : Options) : SourcesAlike s s o o :=
  ⟨fun path => .refl path _, rfl, fun _ _ => rfl, rfl, fun _ _ _ _ _ => rfl⟩

theorem contains (alike : SourcesAlike s s' o o') (path : String) :
    s.contains path = s'.contains path := (alike.reads path).contains

theorem identity (alike : SourcesAlike s s' o o') (path : String) :
    ImportWalk.identity s.provider path = ImportWalk.identity s'.provider path := by
  simp only [ImportWalk.identity, FileStore.provider, FileStore.canonicalize, alike.contains]

/-- The imports of a file that was opened without a mistake. -/
theorem leads_of_parse (alike : SourcesAlike s s' o o') {c next : Context} {path : String}
    {build : FileBuild} (parsed : FileBuild.fresh.parse c s.provider path = (.ok (), build, next)) :
    ∀ i ∈ build.imports, LeadsAlike s s' o o' i := by
  obtain ⟨text, file, read, sound, document, -⟩ := FileBuild.parse_ok parsed
  intro i member
  refine alike.leads path file (SourceFile.read?_eq_some_iff.2 ⟨text, read, sound⟩) i ?_
  simpa [FileBuild.imports, document, SourceFile.document] using member

end SourcesAlike

namespace ImportWalk

def Pending.placeless (p : Pending) : Pending := { p with build := p.build.placeless }

def Stop.placeless (stop : Stop) : Stop := { stop with build := stop.build.placeless }

section
variable {base other : Reporter} {s s' : FileStore} {o o' : Options} {w w' : Walk}

/-- Two walks that differ in places and in what was reported before them. -/
structure Walk.Alike (base other : Reporter) (s s' : FileStore) (o o' : Options) (w w' : Walk) :
    Prop where
  context : w.context.Alike base other w'.context
  classFiles : w.classFiles = w'.classFiles
  visited : w.visited = w'.visited
  broken : w.broken = w'.broken
  clean : w.clean = w'.clean
  pending : w.pending.map Pending.placeless = w'.pending.map Pending.placeless
  opened : w.opened = w'.opened
  leads : ∀ p ∈ w.pending, ∀ i ∈ p.build.imports, LeadsAlike s s' o o' i

theorem Walk.Alike.fail (alike : Walk.Alike base other s s' o o' w w')
    {notes more : List Diagnostic}
    (same : notes.map Diagnostic.placeless = more.map Diagnostic.placeless) :
    Walk.Alike base other s s' o o' (w.fail notes) (w'.fail more) :=
  { alike with context := alike.context.report same, clean := rfl }

theorem Walk.Alike.add (alike : Walk.Alike base other s s' o o' w w') (path : String)
    {build build' : FileBuild} (same : build.placeless = build'.placeless)
    (leads : ∀ i ∈ build.imports, LeadsAlike s s' o o' i) :
    Walk.Alike base other s s' o o' (w.add path build) (w'.add path build') := by
  have types : build.types.map Declaration.placeless = build'.types.map Declaration.placeless := by
    rw [← FileBuild.placeless_types, same, FileBuild.placeless_types]
  have placement (ds : List Declaration) :
      (ds.flatMap (·.placementNotes path)).map Diagnostic.placeless =
        (ds.map Declaration.placeless).flatMap (·.placementNotes path) := by
    simp [List.map_flatMap, List.flatMap_map, Declaration.placeless_placement]
  have notes : (build.types.flatMap (·.placementNotes path)).map Diagnostic.placeless =
      (build'.types.flatMap (·.placementNotes path)).map Diagnostic.placeless := by
    rw [placement, placement, types]
  have classes (ds : List Declaration) : ds.map (fun d => (d.canonical, path)) =
      (ds.map Declaration.placeless).map fun d => (d.canonical, path) := by
    rw [List.map_map]
    rfl
  constructor
  · exact alike.context.report notes
  · have files := (classes _).trans ((congrArg _ types).trans (classes _).symm)
    simp only [Walk.add, files, alike.classFiles]
  · exact alike.visited
  · exact alike.broken
  · have silent := congrArg List.isEmpty notes
    rw [List.isEmpty_map, List.isEmpty_map] at silent
    simp only [Walk.add, silent, alike.clean]
  · have own : (⟨path, build⟩ : Pending).placeless = (⟨path, build'⟩ : Pending).placeless :=
      congrArg (Pending.mk path) same
    simp only [Walk.add, List.map_append, List.map_cons, List.map_nil, alike.pending, own]
  · exact congrArg (· + 1) alike.opened
  · intro p member
    rcases List.mem_append.1 member with member | member
    · exact alike.leads p member
    · obtain rfl := List.mem_singleton.1 member
      exact leads

/-! ## One import -/

/-- How two steps of a walk compare. -/
abbrev EndsAlike {α : Type} (base other : Reporter) (s s' : FileStore) (o o' : Options)
    (value : α → α → Prop) : EStateM.Result Fatal Walk α → EStateM.Result Fatal Walk α → Prop :=
  Ends Eq (Walk.Alike base other s s' o o') value

theorem openFor_alike (sources : SourcesAlike s s' o o')
    (alike : Walk.Alike base other s s' o o' w w') {i i' : ImportStatement}
    (same : i.placeless = i'.placeless) (path : String) :
    EndsAlike base other s s' o o' Eq (openFor s.provider i path w)
      (openFor s'.provider i' path w') := by
  have className : i.className = i'.className := (congrArg ImportStatement.className same :)
  have reads : ReadsAlike path (s.provider.read path) (s'.provider.read path) := sources.reads path
  obtain ⟨result, builds, contexts⟩ := FileBuild.parse_alike alike.context reads
  unfold openFor
  rw [sources.identity]
  generalize hparse : FileBuild.fresh.parse w.context s.provider path = parsed at result builds contexts
  generalize FileBuild.fresh.parse w'.context s'.provider path = parsed' at result builds contexts
  obtain ⟨outcome, build, next⟩ := parsed
  obtain ⟨outcome', build', next'⟩ := parsed'
  dsimp only at result builds contexts ⊢
  subst result
  have visited := congrArg (identity s'.provider path :: ·) alike.visited
  have moved : Walk.Alike base other s s' o o'
      { w with context := next, visited := identity s'.provider path :: w.visited }
      { w' with context := next', visited := identity s'.provider path :: w'.visited } :=
    { alike with context := contexts, visited }
  cases outcome with
  | ok =>
    exact .ok (by rw [alike.opened]) (moved.add path builds (sources.leads_of_parse hparse))
  | error failure =>
    cases failure with
    | fatal f => exact .error rfl moved
    | unreadable | malformed | unresolved =>
      refine .ok rfl (Walk.Alike.fail ?_ (by simp [className]))
      exact { moved with broken := congrArg (identity s'.provider path :: ·) alike.broken }

theorem follow_alike (sources : SourcesAlike s s' o o')
    (alike : Walk.Alike base other s s' o o' w w') {i i' : ImportStatement}
    (same : i.placeless = i'.placeless) (leads : LeadsAlike s s' o o' i) :
    EndsAlike base other s s' o o' Eq (follow s.provider o i w) (follow s'.provider o' i' w') := by
  have className : i.className = i'.className := (congrArg ImportStatement.className same :)
  unfold follow
  unfold LeadsAlike at leads
  rw [alike.context.registry, className, alike.classFiles]
  rw [className] at leads
  cases w'.context.registry.lookup? i'.className with
  | some known => exact .ok rfl alike
  | none =>
    dsimp only
    rw [leads]
    cases ImportSearch.file? s'.provider o' i'.className with
    | none => exact .ok rfl (alike.fail rfl)
    | some path =>
      dsimp only
      rw [sources.identity, alike.visited, alike.broken]
      split
      · refine .ok rfl (alike.fail ?_)
        split <;> rfl
      · exact openFor_alike sources alike same path

/-! ## All imports -/

theorem followAll_alike (sources : SourcesAlike s s' o o') {is is' : List ImportStatement}
    (same : is.map ImportStatement.placeless = is'.map ImportStatement.placeless)
    (leads : ∀ i ∈ is, LeadsAlike s s' o o' i) (alike : Walk.Alike base other s s' o o' w w') :
    EndsAlike base other s s' o o' Eq (followAll s.provider o is w)
      (followAll s'.provider o' is' w') := by
  induction is generalizing is' w w' with
  | nil =>
    obtain rfl := List.map_eq_nil_iff.1 same.symm
    exact .ok rfl alike
  | cons i is ih =>
    obtain ⟨i', is', rfl, first, others⟩ := List.map_eq_cons_iff.1 same.symm
    obtain ⟨own, rest⟩ := List.forall_mem_cons.1 leads
    refine (follow_alike sources alike first.symm own).bind fun link link' mid mid' links alike => ?_
    subst links
    refine (ih others.symm rest alike).bind fun links links' last last' rest alike => ?_
    subst rest
    exact .ok rfl alike

theorem run_alike (sources : SourcesAlike s s' o o') (count : Nat)
    (alike : Walk.Alike base other s s' o o' w w') :
    EndsAlike base other s s' o o'
      (fun stops stops' => stops.map Stop.placeless = stops'.map Stop.placeless)
      (run s.provider o count w) (run s'.provider o' count w') := by
  induction count generalizing w w' with
  | zero => exact .ok rfl alike
  | succ count ih =>
    have pending := alike.pending
    unfold run
    rw [get_bind, get_bind]
    cases hp : w.pending with
    | nil =>
      rw [hp] at pending
      rw [List.map_eq_nil_iff.1 pending.symm]
      exact .ok rfl alike
    | cons first waiting =>
      rw [hp] at pending
      obtain ⟨first', waiting', hp', head, tail⟩ := List.map_eq_cons_iff.1 pending.symm
      rw [hp']
      dsimp only
      rw [modify_bind, modify_bind]
      have path : first'.path = first.path := (congrArg Pending.path head :)
      have build : first'.build.placeless = first.build.placeless :=
        (congrArg Pending.build head :)
      have imports : first.build.imports.map ImportStatement.placeless =
          first'.build.imports.map ImportStatement.placeless := by
        rw [← FileBuild.placeless_imports, ← build, FileBuild.placeless_imports]
      have leads := alike.leads
      rw [hp] at leads
      obtain ⟨own, rest⟩ := List.forall_mem_cons.1 leads
      have moved : Walk.Alike base other s s' o o' { w with pending := waiting }
          { w' with pending := waiting' } :=
        { alike with pending := tail.symm, leads := rest }
      refine (followAll_alike sources imports own moved).bind
        fun links links' mid mid' same alike => ?_
      subst same
      refine (ih alike).bind fun stops stops' last last' others alike => ?_
      refine .ok ?_ alike
      rw [List.map_cons, List.map_cons, others]
      exact congrArg (· :: _) (by simp only [Stop.placeless, path, build])

/-- The whole walk. Both end before their turns run out, so they may be given the same number. -/
theorem ofFile_alike (sources : SourcesAlike s s' o o') {c c' : Context}
    (contexts : c.Alike base other c') {build build' : FileBuild}
    (same : build.placeless = build'.placeless)
    (leads : ∀ i ∈ build.imports, LeadsAlike s s' o o' i) (path : String) :
    EndsAlike base other s s' o o'
      (fun stops stops' => stops.map Stop.placeless = stops'.map Stop.placeless)
      (ofFile s.provider o path build c) (ofFile s'.provider o' path build' c') := by
  have alike : Walk.Alike base other s s' o o' (.start s.provider path build c)
      (.start s'.provider path build' c') := by
    constructor
    · exact contexts
    · rfl
    · exact congrArg (fun key => [key]) (sources.identity path)
    · rfl
    · rfl
    · exact congrArg (fun b => [Pending.mk path b]) same
    · rfl
    · intro p member
      obtain rfl := List.mem_singleton.1 member
      exact leads
  obtain ⟨stops, w, walked, -, -, -, ended⟩ := ofFile_course s o path build c
  obtain ⟨stops', w', walked', -, -, -, ended'⟩ := ofFile_course s' o' path build' c'
  have both := run_alike sources (s.provider.limit + 1 + (s'.provider.limit + 1)) alike
  rw [run_add walked ended, Nat.add_comm, run_add walked' ended'] at both
  rw [walked, walked']
  exact both

end

end ImportWalk

/-! ## Documents -/

mutual
def LoadedImport.placeless : LoadedImport → LoadedImport
  | ⟨statement, file, none⟩ => ⟨statement.placeless, file, none⟩
  | ⟨statement, file, some document⟩ => ⟨statement.placeless, file, some document.placeless⟩

def LoadedDocument.placeless : LoadedDocument → LoadedDocument
  | ⟨types, imports⟩ => ⟨types.map Declaration.placeless, LoadedImport.allPlaceless imports⟩

def LoadedImport.allPlaceless : List LoadedImport → List LoadedImport
  | [] => []
  | i :: is => i.placeless :: LoadedImport.allPlaceless is
end

theorem LoadedImport.allPlaceless_eq_map (is : List LoadedImport) :
    allPlaceless is = is.map placeless := by
  induction is with
  | nil => rw [allPlaceless, List.map_nil]
  | cons i is ih => rw [allPlaceless, ih, List.map_cons]

theorem LoadedImport.placeless_mk (statement : ImportStatement) (file : Option String)
    (document : Option LoadedDocument) :
    placeless ⟨statement, file, document⟩ =
      ⟨statement.placeless, file, document.map LoadedDocument.placeless⟩ := by
  cases document <;> simp [placeless]

theorem LoadedDocument.placeless_mk (types : List Declaration) (imports : List LoadedImport) :
    placeless ⟨types, imports⟩ =
      ⟨types.map Declaration.placeless, imports.map LoadedImport.placeless⟩ := by
  rw [placeless, LoadedImport.allPlaceless_eq_map]

namespace ImportWalk

theorem Link.placeless_joined (link : Link) (first : Nat) (documents : List (Option LoadedDocument))
    (i : ImportStatement) :
    link.joined first (documents.map (Option.map LoadedDocument.placeless)) i.placeless =
      (link.joined first documents i).placeless := by
  unfold Link.joined
  rw [LoadedImport.placeless_mk]
  cases link.target with
  | none => rfl
  | some n =>
    simp only [Option.bind_some, List.getElem?_map]
    rcases documents[n - first]? with _ | _ | document <;> rfl

/-- Documents are joined without a look at their places. -/
theorem documents_placeless (first : Nat) (stops : List Stop) :
    documents first (stops.map Stop.placeless) =
      (documents first stops).map (Option.map LoadedDocument.placeless) := by
  induction stops generalizing first with
  | nil => rfl
  | cons stop stops ih =>
    rw [List.map_cons, documents, documents, ih]
    have own : stop.placeless.build.takeDocument.1 =
        stop.build.takeDocument.1.map Document.placeless := rfl
    rw [own]
    cases stop.build.takeDocument.1 with
    | none => rfl
    | some d =>
      simp [Document.placeless, LoadedDocument.placeless_mk, List.zip_map_left,
        Link.placeless_joined, Stop.placeless]

end ImportWalk

end IdlFrontEnd
