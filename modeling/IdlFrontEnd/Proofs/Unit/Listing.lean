import IdlFrontEnd.Proofs.Each
import IdlFrontEnd.Proofs.Path
import IdlFrontEnd.Proofs.Unit.Declared
import IdlFrontEnd.Proofs.Unit.Exported
import IdlFrontEnd.Proofs.Unit.LoadAlike
import IdlFrontEnd.Proofs.Unit.Loadable
import IdlFrontEnd.Proofs.Unit.Packages

/-!
# Listings of inputs that are loaded alone

Every input file of a listing starts on an empty registry, and what was reported for the files
before it changes nothing. The listing is therefore made of the types that its input files define,
each loaded alone. The input files are also where imports are searched in the end; if their last
components differ, a class leads to one of them at most, and no two of the types have one name in
one package. Neither the search nor the sorting then depends on the order of the input files.
-/
namespace IdlFrontEnd

/-! ## Each input file for itself -/

/-- On an empty registry a unit loads as it does from the start, whatever was reported before, and
it loads alike from sources that are alike. -/
theorem loadUnit_fresh {s s' : FileStore} {o o' : Options} (sources : SourcesAlike s s' o o')
    (c : Context) (path : String) :
    (outcome (loadUnit s.provider o path { c with registry := .empty })).map LoadedUnit.placeless =
      (outcome (loadUnit s'.provider o' path .empty)).map LoadedUnit.placeless := by
  have start : Context.Alike c.reporter .empty { c with registry := .empty } .empty :=
    ⟨rfl, [], [], rfl, rfl, rfl⟩
  have ends := loadUnit_sameErrors sources start Registry.empty_named path
  generalize loadUnit s.provider o path { c with registry := .empty } = first at ends
  generalize loadUnit s'.provider o' path .empty = second at ends
  cases ends with
  | ok units _ => exact congrArg Except.ok units
  | error same _ => exact congrArg Except.error same

/-- The type that the unit of an input file defines, or why loading the unit alone fails. -/
def typeOf (s : FileStore) (o : Options) (path : String) : Except LoadError Declaration :=
  (outcome (loadUnit s.provider o path .empty)).map (·.declaration.placeless)

theorem typeOf_eq (s : FileStore) (o : Options) (path : String) :
    typeOf s o path = ((outcome (loadUnit s.provider o path .empty)).map LoadedUnit.placeless).map
      LoadedUnit.declaration := by
  unfold typeOf
  cases outcome (loadUnit s.provider o path .empty) <;> rfl

theorem typeOf_alike {s s' : FileStore} {o o' : Options} (sources : SourcesAlike s s' o o') :
    typeOf s o = typeOf s' o' := by
  funext path
  rw [typeOf_eq, typeOf_eq]
  exact congrArg _ (loadUnit_fresh sources .empty path)

/-- A listing is the text of the types that its input files define, each loaded alone. It fails with
the first of them that fails. -/
theorem listApi_outcome (s : FileStore) (o : Options) (c : Context) :
    outcome (listApi s.provider o c) = (o.inputFiles.mapM (typeOf s o)).map ApiListing.text := by
  have free (path : String) (c : Context) :
      (outcome (loadUnit s.provider o path { c with registry := .empty })).map
        (·.declaration.placeless) = typeOf s o path := by
    rw [typeOf_eq, ← loadUnit_fresh (.refl s o) c]
    cases outcome (loadUnit s.provider o path { c with registry := .empty }) <;> rfl
  rw [← Load.forInputs_separate (fun _ => True) (fun path c _ => free path c)
    (fun _ _ _ _ _ _ => trivial) o.inputFiles (c := c) trivial]
  unfold listApi
  cases h : Load.forInputs (loadUnit s.provider o) o.inputFiles c with
  | error e next =>
    rw [bind_of_error h]
    rfl
  | ok units next =>
    rw [bind_of_ok h]
    have types : units.map (·.declaration.placeless) =
        (units.map LoadedUnit.declaration).map Declaration.placeless := by
      rw [List.map_map]
      rfl
    change Except.ok _ = Except.ok _
    rw [types, ApiListing.text_placeless]

theorem listApi_of_units (s : FileStore) (o : Options) (c : Context) :
    outcome (listApi s.provider o c) =
      (o.inputFiles.mapM fun path => outcome (loadUnit s.provider o path .empty)).map
        fun units => ApiListing.text (units.map LoadedUnit.declaration) := by
  have types : o.inputFiles.mapM (typeOf s o) = _ := mapM_map o.inputFiles
  rw [listApi_outcome, types]
  cases o.inputFiles.mapM fun path => outcome (loadUnit s.provider o path .empty) with
  | error e => rfl
  | ok units =>
    refine congrArg Except.ok ((congrArg ApiListing.text ?_).trans (ApiListing.text_placeless _))
    simp

/-! ## Inputs in another order -/

theorem ImportSearch.relativeFile_ne_empty {className : String}
    (qualified : Text.IsQualified className) : relativeFile className ≠ "" := by
  refine Path.withExtension_ne_empty (Path.joinAll_ne_empty (Text.dotted_ne_nil _) ?_) _
  rintro term member rfl
  exact absurd (qualified _ member).identifier (by decide)

/-- Input files with different last components are found for the same classes in every order. -/
theorem SourcesAlike.reordered {s : FileStore} {o : Options} {inputs : List String}
    (perm : o.inputFiles.Perm inputs) (distinct : (o.inputFiles.map Path.last?).Nodup) :
    SourcesAlike s s o { o with inputFiles := inputs } := by
  refine ⟨fun path => .refl path _, rfl, fun _ _ => rfl, rfl, fun path file read i imported => ?_⟩
  obtain ⟨text, -, silent⟩ := Grammar.SourceFile.read?_eq_some_iff.1 read
  have qualified := (Grammar.ofText_spelled silent).imports i imported
  have written := ImportSearch.relativeFile_ne_empty qualified
  unfold LeadsAlike ImportSearch.file?
  dsimp only
  rw [find?_perm perm]
  refine (List.pairwise_map.1 distinct).imp fun apart both => apart ?_
  exact (Path.last?_of_endsWith written both.1).trans (Path.last?_of_endsWith written both.2).symm

theorem Declaration.expectedFile_ne_empty (d : Declaration) : d.expectedFile ≠ "" :=
  Path.join_ne_empty (by simp [fileExtension])

/-- A type is called after the file that it is loaded from. -/
theorem typeOf_placed {s : FileStore} {o : Options} {path : String} {d : Declaration}
    (found : typeOf s o path = .ok d) :
    Path.last? path = Path.last? d.expectedFile ∧
      ∀ term ∈ d.header.package, Text.IsFreeWord term := by
  obtain ⟨u, loaded, rfl⟩ := map_eq_ok_iff.1 found
  cases h : loadUnit s.provider o path .empty with
  | error e next =>
    rw [h] at loaded
    cases loaded
  | ok v next =>
    rw [h] at loaded
    cases loaded
    obtain ⟨file, d, start, stops, w, loadable, declaration⟩ := loadable_of_loads h
    obtain ⟨c, -, read, -⟩ := loadable.begins
    obtain ⟨text, -, silent⟩ := Grammar.SourceFile.read?_eq_some_iff.1 read
    have spelled := Grammar.ofText_spelled silent
    have header : u.declaration.header = d.header := by
      rw [declaration, Declaration.finished, Declaration.withMethods_header,
        Declaration.mapTypes_header]
    constructor
    · have ends := Declaration.placementNotes_eq_nil_iff.1 loadable.placed
      rw [Path.last?_of_endsWith d.expectedFile_ne_empty ends]
      unfold Declaration.expectedFile Declaration.placeless Declaration.name
      rw [header]
      rfl
    · have member : d ∈ file.types := by
        rw [loadable.only]
        exact List.mem_singleton.2 rfl
      have words := spelled.words
      rw [← (spelled.types d member).package, ← header] at words
      exact words

/-- Types from files with different last components differ in package or name. -/
theorem key_nodup {s : FileStore} {o : Options} {paths : List String} {types : List Declaration}
    (found : paths.mapM (typeOf s o) = .ok types) (distinct : (paths.map Path.last?).Nodup) :
    (types.map ApiListing.key).Nodup := by
  have loaded := mapM_eq_ok_iff.1 found
  have places : paths.map Path.last? = types.map fun d => Path.last? d.expectedFile := by
    rw [← List.forall₂_eq_eq_eq, List.forall₂_map_left_iff, List.forall₂_map_right_iff]
    exact loaded.imp fun path d found => (typeOf_placed found).1
  have words : ∀ d ∈ types, ∀ term ∈ d.header.package, Text.isIdentifier term = true := by
    intro d member term inside
    obtain ⟨path, -, found⟩ := mem_of_mapM found member
    exact ((typeOf_placed found).2 term inside).identifier
  rw [places] at distinct
  refine (List.Nodup.of_map _ distinct).map_on fun d first e next same => ?_
  obtain ⟨package, name⟩ := Prod.mk.inj same
  refine List.inj_on_of_nodup_map distinct first next ?_
  have packages := Text.joinDots_inj (words d first) (words e next) package
  unfold Declaration.expectedFile
  rw [packages, show d.name = e.name from name]

theorem listApi_perm {s : FileStore} {o : Options} {inputs : List String}
    (perm : o.inputFiles.Perm inputs) (distinct : (o.inputFiles.map Path.last?).Nodup)
    (c c' : Context) :
    (outcome (listApi s.provider { o with inputFiles := inputs } c')).toOption =
      (outcome (listApi s.provider o c)).toOption := by
  rw [listApi_outcome, listApi_outcome, ← typeOf_alike (.reordered perm distinct)]
  dsimp only
  cases found : o.inputFiles.mapM (typeOf s o) with
  | error e =>
    cases found' : inputs.mapM (typeOf s o) with
    | error e' => rfl
    | ok others =>
      obtain ⟨types, listed, -⟩ := mapM_perm perm.symm found'
      cases found.symm.trans listed
  | ok types =>
    obtain ⟨others, found', same⟩ := mapM_perm perm found
    rw [found']
    exact congrArg some (ApiListing.text_perm same (key_nodup found distinct)).symm

/-! ## All together -/

/-- A listing succeeds exactly if every input file loads alone from an empty context, and fails as
the first of them that does not. Its text has one block for each package of the types of these
units, in ascending order, with all types of the package by name, those of one name in the order of
the input files. If the last components of the input files differ, then in every other order of these
each of them fails alone as before or not at all, and the listing has the same text or fails too. -/
theorem listing_of_separate_loads (s : FileStore) (o : Options) (c : Context) :
    ((outcome (listApi s.provider o c)).isOk = true ↔
        ∀ path ∈ o.inputFiles, (outcome (loadUnit s.provider o path .empty)).isOk = true) ∧
      (∀ e, outcome (listApi s.provider o c) = .error e →
        ∃ before path after, o.inputFiles = before ++ path :: after ∧
          (∀ p ∈ before, (outcome (loadUnit s.provider o p .empty)).isOk = true) ∧
          outcome (loadUnit s.provider o path .empty) = .error e) ∧
      (∀ text, outcome (listApi s.provider o c) = .ok text →
        ∃ units groups,
          List.Forall₂ (fun path u => outcome (loadUnit s.provider o path .empty) = .ok u)
            o.inputFiles units ∧
          ApiListing.Grouped (units.map LoadedUnit.declaration) groups ∧
          text = String.join (groups.map fun g => packageText g.1 g.2)) ∧
      ((o.inputFiles.map Path.last?).Nodup → ∀ inputs, o.inputFiles.Perm inputs →
        (∀ path e,
          outcome (loadUnit s.provider { o with inputFiles := inputs } path .empty) = .error e ↔
            outcome (loadUnit s.provider o path .empty) = .error e) ∧
        ∀ c', (outcome (listApi s.provider { o with inputFiles := inputs } c')).toOption =
          (outcome (listApi s.provider o c)).toOption) := by
  refine ⟨?_, ?_, ?_, ?_⟩
  · rw [listApi_of_units, isOk_map, isOk_mapM]
  · intro e failed
    rw [listApi_of_units, map_eq_error_iff] at failed
    exact mapM_eq_error failed
  · intro text listed
    rw [listApi_of_units] at listed
    obtain ⟨units, found, rfl⟩ := map_eq_ok_iff.1 listed
    exact ⟨units, _, mapM_eq_ok_iff.1 found, ApiListing.grouped_groups _, ApiListing.text_eq _⟩
  · intro distinct inputs perm
    refine ⟨fun path e => ?_, listApi_perm perm distinct c⟩
    have same := congrFun (typeOf_alike (.reordered (s := s) perm distinct)) path
    unfold typeOf at same
    rw [← map_eq_error_iff, ← same, map_eq_error_iff]

/-- Three files of two packages. The first needs the second, which is found among the inputs. -/
def needingInput : FileStore :=
  ((FileStore.empty.insert "Z.aidl" "import a.I; interface Z \x7b I f(); \x7d").insert
    "a/I.aidl" "package a; interface I \x7b int n(); \x7d").insert
    "a/B.aidl" "package a; parcelable B \x7b int x; \x7d"

def inOrderOf (inputs : List String) : Options := { Options.empty with inputFiles := inputs }

theorem needingInput_listings :
    (["Z.aidl", "a/I.aidl", "a/B.aidl"].map Path.last?).Nodup ∧
      ∃ text,
        outcome (listApi needingInput.provider (inOrderOf ["Z.aidl", "a/I.aidl", "a/B.aidl"])
          .empty) = .ok text ∧
        (outcome (listApi needingInput.provider (inOrderOf ["a/B.aidl", "a/I.aidl", "Z.aidl"])
          .empty)).toOption = some text ∧
        ∃ types groups, types.length = 3 ∧ ApiListing.Grouped types groups ∧
          text = String.join (groups.map fun g => packageText g.1 g.2) := by
  have distinct : (["Z.aidl", "a/I.aidl", "a/B.aidl"].map Path.last?).Nodup := by decide +kernel
  have perm : ["Z.aidl", "a/I.aidl", "a/B.aidl"].Perm ["a/B.aidl", "a/I.aidl", "Z.aidl"] := by decide
  obtain ⟨succeeds, -, lists, free⟩ := listing_of_separate_loads needingInput
    (inOrderOf ["Z.aidl", "a/I.aidl", "a/B.aidl"]) .empty
  have loads : (outcome (listApi needingInput.provider
      (inOrderOf ["Z.aidl", "a/I.aidl", "a/B.aidl"]) .empty)).isOk = true :=
    succeeds.2 (by decide +kernel)
  cases listed : outcome (listApi needingInput.provider
      (inOrderOf ["Z.aidl", "a/I.aidl", "a/B.aidl"]) .empty) with
  | error e =>
    rw [listed] at loads
    cases loads
  | ok text =>
    obtain ⟨units, groups, each, grouped, written⟩ := lists text listed
    refine ⟨distinct, text, rfl, ?_, _, groups, ?_, grouped, written⟩
    · have reversed := (free distinct _ perm).2 .empty
      rw [listed] at reversed
      exact reversed
    · rw [List.length_map]
      exact each.length_eq.symm

end IdlFrontEnd
