import IdlFrontEnd.Proofs.Build
import IdlFrontEnd.Proofs.DeclareOrder
import IdlFrontEnd.Source.Store

/-!
# The order of files

Files that share a context can be opened in any order, each with a build of its own, and resolved in
any order after that. Opening all of them comes down to one silent declaration of all their types,
which has no order; resolving one file reads the registry and leaves it as it is. Nothing is said
about files that are opened and resolved by turns, where a name is looked up among the files opened
so far.
-/
namespace IdlFrontEnd

/-- The file at a path, if it is read without a mistake. -/
def Grammar.SourceFile.read? (provider : SourceProvider) (path : String) :
    Option Grammar.SourceFile :=
  match provider.read path with
  | .error _ => none
  | .ok text =>
    match ofText path text with
    | (file, []) => some file
    | _ => none

theorem Grammar.SourceFile.read?_eq_some_iff {provider : SourceProvider} {path : String}
    {file : Grammar.SourceFile} :
    read? provider path = some file ↔
      ∃ text, provider.read path = .ok text ∧ ofText path text = (file, []) := by
  unfold read?
  cases provider.read path with
  | error e => simp
  | ok text =>
    simp only [Except.ok.injEq, exists_eq_left']
    split
    next sound => simp [sound]
    next told =>
      constructor
      · intro h
        cases h
      · intro h
        exact absurd h (told file)

namespace FileBuild

/-- The build of a file that is read without a mistake and none of whose types is known before. -/
def opened? (provider : SourceProvider) (path : String) : Option FileBuild :=
  (Grammar.SourceFile.read? provider path).map fun file => fresh.openedAs path (.built file 0)

theorem opened?_file {provider : SourceProvider} {path : String} {b : FileBuild}
    (h : opened? provider path = some b) : b.file = path := by
  obtain ⟨file, -, rfl⟩ := Option.map_eq_some_iff.1 h
  rfl

/-- Opening succeeds exactly if the file is read and its types are declared in silence; it leaves
the registry with these types and the reporter as it was. -/
theorem parse_eq_ok_iff {c next : Context} {provider : SourceProvider} {path : String}
    {b : FileBuild} :
    fresh.parse c provider path = (.ok (), b, next) ↔
      ∃ file, Grammar.SourceFile.read? provider path = some file ∧
        b = fresh.openedAs path (.built file 0) ∧
        c.registry.declare file.types = (next.registry, []) ∧ next.reporter = c.reporter := by
  constructor
  · intro h
    obtain ⟨text, file, read, sound, -, declared⟩ := parse_ok h
    have source := Grammar.SourceFile.read?_eq_some_iff.2 ⟨text, read, sound⟩
    rw [parse_eq rfl, c.openFile_built read sound, declared] at h
    have build := congrArg (fun answer => answer.2.1) h
    have kept := congrArg (fun answer => answer.2.2.reporter) h
    exact ⟨file, source, build.symm, declared, kept.symm⟩
  · rintro ⟨file, h, rfl, declared, same⟩
    obtain ⟨text, read, sound⟩ := Grammar.SourceFile.read?_eq_some_iff.1 h
    rw [parse_eq rfl, c.openFile_built read sound, declared]
    obtain ⟨registry, reporter⟩ := next
    obtain rfl : reporter = c.reporter := same
    rfl

/-! ## All files -/

/-- Opens every file with a build of its own, one after the other. -/
def parseAll (provider : SourceProvider) :
    List String → Context → List (Except ParseFailure Unit × FileBuild) × Context
  | [], c => ([], c)
  | path :: paths, c =>
    let (result, b, next) := fresh.parse c provider path
    let (others, last) := parseAll provider paths next
    ((result, b) :: others, last)

/-- Resolves every build, one after the other. -/
def resolveAll :
    List FileBuild → Context → List (Except ParseFailure Unit × FileBuild) × Context
  | [], c => ([], c)
  | b :: bs, c =>
    let (result, done, next) := b.resolve c
    let (others, last) := resolveAll bs next
    ((result, done) :: others, last)

/-- The types of all files that are read without a mistake. -/
def declarations (provider : SourceProvider) (paths : List String) : List Declaration :=
  (paths.filterMap (Grammar.SourceFile.read? provider)).flatMap Grammar.SourceFile.types

/-- Every file is read without a mistake, and together they declare no type twice and none that is
known before. -/
structure Opens (provider : SourceProvider) (c : Context) (paths : List String) (g : Registry) :
    Prop where
  sound : ∀ path ∈ paths, (Grammar.SourceFile.read? provider path).isSome = true
  declared : c.registry.declare (declarations provider paths) = (g, [])

theorem Opens.perm {provider : SourceProvider} {c : Context} {paths others : List String}
    {g : Registry} (opens : Opens provider c paths g) (same : paths.Perm others) :
    Opens provider c others g := by
  constructor
  · intro path member
    exact opens.sound path (same.mem_iff.2 member)
  · refine Registry.declare_perm ?_ opens.declared
    exact (same.filterMap _).flatMap_right _

theorem declarations_cons {provider : SourceProvider} {path : String} {paths : List String}
    {file : Grammar.SourceFile} (read : Grammar.SourceFile.read? provider path = some file) :
    declarations provider (path :: paths) = file.types ++ declarations provider paths := by
  simp [declarations, read]

theorem opens_of_parseAll {provider : SourceProvider} {paths : List String} {c : Context}
    (ok : ∀ r ∈ (parseAll provider paths c).1, r.1 = .ok ()) :
    Opens provider c paths (parseAll provider paths c).2.registry := by
  induction paths generalizing c with
  | nil => exact ⟨by simp, by simp [parseAll, declarations, Registry.declare]⟩
  | cons path paths ih =>
    rw [parseAll] at ok ⊢
    cases h : fresh.parse c provider path with
    | mk result rest =>
      obtain ⟨b, next⟩ := rest
      simp only [h, List.forall_mem_cons] at ok
      obtain ⟨rfl, others⟩ := ok
      obtain ⟨file, read, -, declared, -⟩ := parse_eq_ok_iff.1 h
      have opens := ih others
      constructor
      · simpa [read] using opens.sound
      · rw [declarations_cons read]
        exact Registry.declare_append_silent.2 ⟨_, declared, opens.declared⟩

/-- Files that open together do so one after the other, each with the build it would have alone. -/
theorem Opens.parseAll {provider : SourceProvider} {paths : List String} {c : Context}
    {g : Registry} (opens : Opens provider c paths g) :
    (∀ r ∈ (parseAll provider paths c).1, r.1 = .ok ()) ∧
      (parseAll provider paths c).2.registry = g ∧
      (parseAll provider paths c).1.map Prod.snd = paths.filterMap (opened? provider) := by
  induction paths generalizing c with
  | nil =>
    have declared := opens.declared
    simp only [declarations, List.filterMap_nil, List.flatMap_nil, Registry.declare,
      Prod.mk.injEq] at declared
    exact ⟨by simp [FileBuild.parseAll], declared.1, rfl⟩
  | cons path paths ih =>
    obtain ⟨file, read⟩ := Option.isSome_iff_exists.1 (opens.sound path List.mem_cons_self)
    have declared := opens.declared
    rw [declarations_cons read, Registry.declare_append_silent] at declared
    obtain ⟨mid, first, rest⟩ := declared
    have alone : fresh.parse c provider path =
        (.ok (), fresh.openedAs path (.built file 0), ⟨mid, c.reporter⟩) :=
      parse_eq_ok_iff.2 ⟨file, read, rfl, first, rfl⟩
    have sound : ∀ p ∈ paths, (Grammar.SourceFile.read? provider p).isSome = true :=
      fun p member => opens.sound p (List.mem_cons_of_mem path member)
    obtain ⟨ok, registry, builds⟩ := ih (c := ⟨mid, c.reporter⟩) ⟨sound, rest⟩
    simp only [FileBuild.parseAll, alone]
    refine ⟨?_, registry, ?_⟩
    · simpa using ok
    · simp [builds, opened?, read]

/-- There is one build for each file. -/
theorem Opens.files {provider : SourceProvider} {paths : List String} {c : Context} {g : Registry}
    (opens : Opens provider c paths g) :
    (paths.filterMap (opened? provider)).map FileBuild.file = paths := by
  have sound := opens.sound
  clear opens
  induction paths with
  | nil => rfl
  | cons path paths ih =>
    obtain ⟨file, read⟩ := Option.isSome_iff_exists.1 (sound path List.mem_cons_self)
    have own : opened? provider path = some (fresh.openedAs path (.built file 0)) := by
      simp [opened?, read]
    rw [List.filterMap_cons_some own, List.map_cons, opened?_file own]
    rw [ih fun p member => sound p (List.mem_cons_of_mem path member)]

theorem opened?_of_mem {provider : SourceProvider} {paths : List String} {b : FileBuild}
    (member : b ∈ paths.filterMap (opened? provider)) : opened? provider b.file = some b := by
  obtain ⟨path, -, h⟩ := List.mem_filterMap.1 member
  rwa [opened?_file h]

theorem resolveAll_eq_map (bs : List FileBuild) {c other : Context}
    (same : c.registry = other.registry) :
    (resolveAll bs c).1 = bs.map fun b => ((b.resolve other).1, (b.resolve other).2.1) := by
  induction bs generalizing c with
  | nil => rfl
  | cons b bs ih =>
    obtain ⟨result, done⟩ := resolve_congr b same
    have others := ih (c := (b.resolve c).2.2) (by rw [resolve_registry, same])
    simp [resolveAll, others, result, done]

/-- Files that can be opened in one order can be opened in every order. When all of them are
resolved then, in any order, the outcome for a file, its document and all else about its build are
the same for all orders of opening and resolving. -/
theorem resolution_ignores_order (provider : SourceProvider) (c : Context)
    (paths others : List String) (same : paths.Perm others)
    (opened : ∀ r ∈ (parseAll provider paths c).1, r.1 = .ok ()) :
    (∀ r ∈ (parseAll provider others c).1, r.1 = .ok ()) ∧
      ∀ turn turn' : List FileBuild,
        turn.Perm ((parseAll provider paths c).1.map Prod.snd) →
        turn'.Perm ((parseAll provider others c).1.map Prod.snd) →
        let first := (resolveAll turn (parseAll provider paths c).2).1
        let second := (resolveAll turn' (parseAll provider others c).2).1
        (first.map fun r => r.2.file).Perm paths ∧ (second.map fun r => r.2.file).Perm others ∧
          ∀ r ∈ first, ∀ r' ∈ second, r.2.file = r'.2.file → r = r' := by
  have opens := opens_of_parseAll opened
  obtain ⟨-, -, builds⟩ := opens.parseAll
  obtain ⟨ok, registry, otherBuilds⟩ := (opens.perm same).parseAll
  refine ⟨ok, ?_⟩
  intro turn turn' all all'
  rw [builds] at all
  rw [otherBuilds] at all'
  -- each result is that of one build, and the build is the one of its file
  rw [resolveAll_eq_map turn rfl, resolveAll_eq_map turn' registry]
  simp only [List.map_map, List.forall_mem_map, Function.comp_def, resolve_file]
  refine ⟨?_, ?_, ?_⟩
  · simpa [opens.files] using all.map FileBuild.file
  · simpa [(opens.perm same).files] using all'.map FileBuild.file
  · intro b member b' member' sameFile
    have own := opened?_of_mem (all.mem_iff.1 member)
    rw [sameFile, opened?_of_mem (all'.mem_iff.1 member')] at own
    cases own
    rfl

theorem all_ok {results : List (Except ParseFailure Unit × FileBuild)}
    (all : (results.all fun r => r.1.isOk) = true) : ∀ r ∈ results, r.1 = .ok () := by
  intro r member
  have own := List.all_eq_true.1 all r member
  cases h : r.1 with
  | ok done => rfl
  | error e => simp [h, Except.isOk, Except.toBool] at own

/-- A file that mentions a type of the other one. -/
def userAndData : FileStore :=
  (FileStore.empty.insert "a/IUser.aidl" "package a; interface IUser { void f(in Data d); }").insert
    "a/Data.aidl" "package a; parcelable Data { int x; }"

def orderOfUse : List String := ["a/IUser.aidl", "a/Data.aidl"]

theorem userAndData_ignores_order :
    let opened := parseAll userAndData.provider orderOfUse .empty
    let otherwise := parseAll userAndData.provider orderOfUse.reverse .empty
    let first := (resolveAll (opened.1.map Prod.snd) opened.2).1
    let second := (resolveAll (otherwise.1.map Prod.snd) otherwise.2).1
    (∀ r ∈ opened.1, r.1 = .ok ()) ∧ (∀ r ∈ otherwise.1, r.1 = .ok ()) ∧
      (first.map fun r => r.2.file).Perm orderOfUse ∧ (∀ r ∈ first, r.1 = .ok ()) ∧
        ∀ r ∈ first, ∀ r' ∈ second, r.2.file = r'.2.file → r = r' := by
  intro opened otherwise first second
  have ok : ∀ r ∈ opened.1, r.1 = .ok () := all_ok (by decide +kernel)
  have same : orderOfUse.Perm orderOfUse.reverse := orderOfUse.reverse_perm.symm
  obtain ⟨okOtherwise, results⟩ :=
    resolution_ignores_order userAndData.provider .empty orderOfUse orderOfUse.reverse same ok
  obtain ⟨files, -, equal⟩ := results _ _ (.refl _) (.refl _)
  exact ⟨ok, okOtherwise, files, all_ok (by decide +kernel), equal⟩

end FileBuild

end IdlFrontEnd
