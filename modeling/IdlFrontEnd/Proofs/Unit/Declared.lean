import IdlFrontEnd.Proofs.Unit.Closure

/-!
# Which imported classes are known after loading

Loading fails for an import that leads to no file, to a broken one, or to a file that was opened
before and did not declare the class. What it does not ask is whether a file that is opened for the
first time declares the class that it was opened for; it asks only that what is declared there is in
the right place. A file that declares nothing passes, and so does one of a longer package.
-/
namespace IdlFrontEnd

open Load ImportWalk

theorem Declaration.placementNotes_eq_nil_iff {d : Declaration} {path : String} :
    d.placementNotes path = [] ↔ Path.endsWith path d.expectedFile = true := by
  unfold placementNotes
  split <;> simp [*]

/-- A declaration in the document of a file is called and placed as it was written there. -/
theorem LoadedDocument.IsOf.header {provider : SourceProvider} {g : Registry} {path : String}
    {document : LoadedDocument} (isOf : document.IsOf provider g path) {c next : Context}
    {build : FileBuild} (parsed : FileBuild.fresh.parse c provider path = (.ok (), build, next))
    {d : Declaration} (member : d ∈ document.types) :
    ∃ written ∈ build.types, d.header = written.header := by
  obtain ⟨text, file, read, silent, types, -⟩ := isOf
  obtain ⟨text', file', read', silent', own, -⟩ := FileBuild.parse_ok parsed
  cases read.symm.trans read'
  cases silent.symm.trans silent'
  rw [types] at member
  obtain ⟨written, inside, rfl⟩ := List.mem_map.1 member
  refine ⟨written, ?_, Declaration.mapTypes_header _ written⟩
  simpa [FileBuild.types, own] using inside

/-- After loading, the class of every import at every depth is known, unless the import is the one
that its file was opened for and the file declares other types only. These are where they should
be. -/
theorem loadUnit_declares (s : FileStore) (options : Options) (path : String) (u : LoadedUnit)
    (c : Context) (loaded : loadUnit s.provider options path .empty = .ok u c) :
    ∀ i, (i ∈ u.imports ∨ ∃ document, Attached u.imports document ∧ i ∈ document.imports) →
      (c.registry.lookup? i.statement.className).isSome = true ∨
        ∃ file document, i.file = some file ∧ i.document = some document ∧
          ImportSearch.file? s.provider options i.statement.className = some file ∧
          ∀ d ∈ document.types, Path.endsWith file d.expectedFile = true ∧
            d.canonical ≠ i.statement.className ∧ d.name ≠ i.statement.className := by
  intro i place
  obtain ⟨build, start, stops, w, -, course, consecutive, ended, clean, registry, -, order⟩ :=
    loadUnit_course loaded
  obtain ⟨e, met, same⟩ := List.mem_map.1 (order.subset (LoadedImport.mem_tourAll_iff.2 place))
  have joined := course.joined ended clean consecutive c.registry met
  rw [same] at joined
  obtain ⟨before, declared⟩ := course.known e met
  rw [← registry] at before declared
  rw [joined.statement]
  rcases (course.clean clean).2 e met with known | ⟨p, opening, placed⟩
  · exact .inl (Registry.isSome_lookup?_of_subset before known)
  · by_cases own : ∃ d ∈ p.build.types,
        d.canonical = e.statement.className ∨ d.name = e.statement.className
    · obtain ⟨d, member, named⟩ := own
      exact .inl (Registry.lookup?_isSome_iff.2 ⟨_, declared p opening d member, named⟩)
    · right
      obtain ⟨opens, next, parsed⟩ := Encounter.opening?_eq_some_iff.1 opening
      obtain ⟨-, found, -⟩ := Encounter.opens?_eq_some_iff.1 opens
      obtain ⟨file, document, held, isOf⟩ := joined.attached p.path opens
      refine ⟨p.path, document, file, held, found, ?_⟩
      intro d member
      obtain ⟨written, inside, header⟩ := isOf.header parsed member
      have other : ¬ (written.canonical = e.statement.className ∨
          written.name = e.statement.className) := fun named => own ⟨written, inside, named⟩
      have right := Declaration.placementNotes_eq_nil_iff.1 (placed written inside)
      -- where a declaration belongs and what it is called can be read off its header
      unfold Declaration.expectedFile Declaration.canonical Declaration.name at *
      rw [header]
      exact ⟨right, not_or.1 other⟩

/-- An import that leads to a file of a package and nothing else. -/
def importOfNothing : FileStore :=
  (FileStore.empty.insert "a/IFoo.aidl" "package a; import b.Empty; interface IFoo {}").insert
    "inc/b/Empty.aidl" "package b;"

def searchIncluded : Options := { Options.empty with importPaths := ["inc"] }

/-- Loading succeeds although the class of an import is not known. -/
theorem importOfNothing_loaded :
    ∃ u c, loadUnit importOfNothing.provider searchIncluded "a/IFoo.aidl" .empty = .ok u c ∧
      ∃ i ∈ u.imports, (c.registry.lookup? i.statement.className).isSome = false := by
  have evaluated :
      ofLoaded (fun u c => u.imports.map fun i =>
          (c.registry.lookup? i.statement.className).isSome)
        (loadUnit importOfNothing.provider searchIncluded "a/IFoo.aidl" .empty) =
      some [false] := by
    decide +kernel
  obtain ⟨u, c, loaded, classes⟩ := exists_of_ofLoaded evaluated
  have unknown : false ∈ u.imports.map fun i =>
      (c.registry.lookup? i.statement.className).isSome := by
    rw [classes]
    exact List.mem_singleton.2 rfl
  exact ⟨u, c, loaded, List.mem_map.1 unknown⟩

theorem imported_class_unknown :
    ¬ ∀ (s : FileStore) (options : Options) (path : String) (u : LoadedUnit) (c : Context),
      loadUnit s.provider options path .empty = .ok u c →
        ∀ i, (i ∈ u.imports ∨ ∃ document, Attached u.imports document ∧ i ∈ document.imports) →
          (c.registry.lookup? i.statement.className).isSome = true := by
  intro all
  obtain ⟨u, c, loaded, i, member, unknown⟩ := importOfNothing_loaded
  rw [all _ _ _ u c loaded i (.inl member)] at unknown
  cases unknown

theorem importOfNothing_declares :
    ∃ u c, loadUnit importOfNothing.provider searchIncluded "a/IFoo.aidl" .empty = .ok u c ∧
      ∃ i ∈ u.imports, ∃ file document, i.file = some file ∧ i.document = some document ∧
        ImportSearch.file? importOfNothing.provider searchIncluded i.statement.className =
          some file ∧
        ∀ d ∈ document.types, Path.endsWith file d.expectedFile = true ∧
          d.canonical ≠ i.statement.className ∧ d.name ≠ i.statement.className := by
  obtain ⟨u, c, loaded, i, member, unknown⟩ := importOfNothing_loaded
  refine ⟨u, c, loaded, i, member, ?_⟩
  rcases loadUnit_declares _ _ _ u c loaded i (.inl member) with known | attached
  · rw [known] at unknown
    cases unknown
  · exact attached

end IdlFrontEnd
