import IdlFrontEnd.Proofs.BuildAlike
import IdlFrontEnd.Proofs.Grammar.ImportStatements
import IdlFrontEnd.Proofs.Unit.Closure
import IdlFrontEnd.Proofs.Unit.Loadable

/-!
# The order of imports

Permuting the imports of a file can change what it means: of the imports that end in a simple name
the first one resolves it, and a class that is known by its simple name is not looked for. Without
two that end alike, and with every class answered by its own file only, the order decides nothing.
-/
namespace IdlFrontEnd

open Grammar (SourceFile ReadAlike ImportsPermuted ImportSlot)

open scoped List

/-! ## Two texts of one file -/

/-- Two providers with the same files that may differ in the text of one. -/
structure SourceProvider.AgreeBut (path : String) (p q : SourceProvider) : Prop where
  isFile : p.isFile = q.isFile
  canonical? : p.canonical? = q.canonical?
  read : ∀ other, Path.normalForm other ≠ Path.normalForm path → p.read other = q.read other
  identity : ∀ other, Path.normalForm other = Path.normalForm path →
    ImportWalk.identity p other = ImportWalk.identity p path

theorem ImportWalk.identity_congr {path : String} {p q : SourceProvider}
    (same : p.AgreeBut path q) : identity p = identity q := by
  funext other
  unfold identity
  rw [same.canonical?]

theorem SourceProvider.AgreeBut.symm {path : String} {p q : SourceProvider}
    (same : p.AgreeBut path q) : q.AgreeBut path p := by
  refine ⟨same.isFile.symm, same.canonical?.symm, fun other apart => (same.read other apart).symm, ?_⟩
  rw [← ImportWalk.identity_congr same]
  exact same.identity

namespace FileStore

variable (s : FileStore) (path text text' : String)

theorem contains_insert : (s.insert path text).contains = (s.insert path text').contains := by
  funext other
  unfold contains
  rw [find?_insert, find?_insert]
  split <;> rfl

theorem agreeBut_insert :
    SourceProvider.AgreeBut path (s.insert path text).provider (s.insert path text').provider := by
  have contains := contains_insert s path text text'
  constructor
  · exact contains
  · unfold provider canonicalize
    rw [contains]
  · intro other apart
    change (s.insert path text).read other = (s.insert path text').read other
    unfold read
    rw [find?_insert, find?_insert, if_neg apart, if_neg apart]
  · intro other same
    refine FileStore.identity_eq ?_ same
    unfold FileStore.contains
    rw [find?_insert, if_pos same]
    rfl

end FileStore

/-! ## The closure does not see the text of its first file -/

namespace ImportWalk

section
variable {path : String} {p q : SourceProvider} {options : Options} {g : Registry}
  {classes others : List String}

theorem file?_congr (same : p.AgreeBut path q) :
    ImportSearch.file? p options = ImportSearch.file? q options := by
  funext className
  unfold ImportSearch.file?
  rw [same.isFile]

theorem Leads.congr (same : p.AgreeBut path q) {className target : String}
    (leads : Leads p options path g className target) :
    Leads q options path g className target := by
  obtain ⟨unknown, found, other⟩ := leads
  rw [identity_congr same] at other
  rw [file?_congr same] at found
  exact ⟨unknown, found, other⟩

/-- A file that imports lead to is the same for both. -/
theorem Leads.read? (same : p.AgreeBut path q) {className target : String}
    (leads : Leads p options path g className target) :
    SourceFile.read? p target = SourceFile.read? q target := by
  unfold SourceFile.read?
  rw [same.read target fun own => leads.other (same.identity target own)]

theorem Wanted.congr (same : p.AgreeBut path q) (part : classes ⊆ others) {className : String}
    (wanted : Wanted p options path g classes className) :
    Wanted q options path g others className := by
  induction wanted with
  | own member => exact .own (part member)
  | further _ leads read member ih =>
    rw [leads.read? same] at read
    exact .further ih (leads.congr same) read member

theorem OneFileEach.congr (same : p.AgreeBut path q) (all : classes ~ others)
    (clear : OneFileEach p options path g classes) : OneFileEach q options path g others := by
  intro className wanted unknown other target file wantedOther leads read
  have back := leads.congr same.symm
  rw [leads.read? same.symm] at read
  rw [← file?_congr same]
  exact clear className (wanted.congr same.symm all.symm.subset) unknown other target file
    (wantedOther.congr same.symm all.symm.subset) back read

theorem ImportClosure.congr (same : p.AgreeBut path q) (all : classes ~ others)
    {files : List Pending} (closure : ImportClosure p options path g classes files) :
    ImportClosure q options path g others files := by
  constructor
  case distinct =>
    rw [← identity_congr same]
    exact closure.distinct
  case opened =>
    intro p member
    obtain ⟨className, -, leads⟩ := closure.led p member
    have opened := closure.opened p member
    unfold FileBuild.opened? at opened ⊢
    rwa [← leads.read? same]
  case placed => exact closure.placed
  case led =>
    intro p member
    obtain ⟨className, wanted, leads⟩ := closure.led p member
    exact ⟨className, wanted.congr same all.subset, leads.congr same⟩
  case reached =>
    intro className wanted unknown
    rw [← file?_congr same]
    exact closure.reached className (wanted.congr same.symm all.symm.subset) unknown
  case declared => exact closure.declared

end

/-- Walks from two texts of one file that import the same classes are both clean or both not, and
when they are, they open the same files and end with the same registry. -/
theorem walk_congr {s s' : FileStore} {options : Options} {path : String}
    (same : s.provider.AgreeBut path s'.provider) {build build' : FileBuild} {c : Context}
    (all : build.classes ~ build'.classes)
    (clear : OneFileEach s.provider options path c.registry build.classes) {stops stops' : List Stop}
    {w w' : Walk} (walked : ofFile s.provider options path build c = .ok stops w)
    (walked' : ofFile s'.provider options path build' c = .ok stops' w') (clean : w.clean = true) :
    w'.clean = true ∧ w'.context.registry = w.context.registry ∧
      openedFrom s.provider options path build c ~ openedFrom s'.provider options path build' c := by
  have clear' := clear.congr same all
  have closure := (closure_of_clean clear walked clean).congr same all
  have clean' := clean_of_closure clear' closure walked'
  have opened := closure.perm (closure_of_clean clear' walked' clean')
  have declared := Registry.declare_perm (opened.flatMap_right (·.build.types))
    (declared_of_clean walked clean)
  rw [declared_of_clean walked' clean'] at declared
  exact ⟨clean', congrArg Prod.fst declared, opened⟩

end ImportWalk

/-! ## Names -/

/-- As long as no two imports end alike, their order does not matter to a name. -/
theorem Registry.canonical?_perm (g : Registry) {classes others : List String}
    (all : classes ~ others)
    (ends : ∀ c ∈ classes, ∀ c' ∈ classes, Text.lastTerm c = Text.lastTerm c' → c = c') :
    g.canonical? classes = g.canonical? others := by
  funext name
  have equal {l : List String} (part : l ⊆ classes) :
      (l.filter (Text.lastTerm · = name)).Pairwise (· = ·) := by
    apply List.pairwise_of_forall_mem_list
    intro c first c' second
    obtain ⟨first, same⟩ := List.mem_filter.1 first
    obtain ⟨second, same'⟩ := List.mem_filter.1 second
    simp only [decide_eq_true_eq] at same same'
    exact ends c (part first) c' (part second) (same.trans same'.symm)
  have filtered : classes.filter (Text.lastTerm · = name) = others.filter (Text.lastTerm · = name) :=
    List.Perm.eq_of_pairwise (fun _ _ _ _ same _ => same) (equal (List.Subset.refl _))
      (equal all.symm.subset) (all.filter _)
  unfold canonical?
  rw [filtered]

/-- Documents that differ in places and in the order of imports have the same names to resolve. -/
theorem Document.silent_congr {d d' : Document} {g : Registry} (names : d.names g = d'.names g)
    (types : d.types.map Declaration.placeless = d'.types.map Declaration.placeless)
    (silent : d.unresolvedNotes g = []) : d'.unresolvedNotes g = [] := by
  have typeExprs : d.placeless.typeExprs = d'.placeless.typeExprs :=
    congrArg (List.flatMap Declaration.types) types
  have notes : d.placeless.unresolvedNotes g = d'.placeless.unresolvedNotes g := by
    unfold unresolvedNotes
    rw [typeExprs, placeless_names, placeless_names, names]
  rw [placeless_unresolvedNotes, placeless_unresolvedNotes, silent] at notes
  exact List.map_eq_nil_iff.1 notes.symm

/-! ## Two texts that differ in the order of their imports -/

namespace Grammar.SourceFile

variable {file other : SourceFile}

theorem SameButOrder.records (same : file.SameButOrder other) :
    file.types.map TypeRecord.ofDeclaration = other.types.map TypeRecord.ofDeclaration := by
  have records := congrArg (List.map TypeRecord.ofDeclaration) same.types
  simpa only [List.map_map, Function.comp_def, Declaration.placeless_ofDeclaration] using records

theorem read?_insert (s : FileStore) (path text : String) {file : SourceFile} :
    read? (s.insert path text).provider path = some file ↔ ofText path text = (file, []) := by
  rw [read?_eq_some_iff]
  constructor
  · rintro ⟨found, read, sound⟩
    cases (s.read_insert path text).symm.trans read
    exact sound
  · intro sound
    exact ⟨text, s.read_insert path text, sound⟩

end Grammar.SourceFile

/-! ## When the order is free -/

/-- What keeps the order of imports from counting. -/
structure OrderIsFree (provider : SourceProvider) (options : Options) (path : String) : Prop where
  /-- The input is not a preprocessed file at the same time. -/
  apart : ∀ listed ∈ options.preprocessedFiles, Path.normalForm listed ≠ Path.normalForm path
  oneFileEach : ∀ file start, Load.Begins provider options path file start →
    ImportWalk.OneFileEach provider options path start.registry
      (file.imports.map ImportStatement.className)
  ends : ∀ file, SourceFile.read? provider path = some file →
    ∀ c ∈ file.imports.map ImportStatement.className,
    ∀ c' ∈ file.imports.map ImportStatement.className, Text.lastTerm c = Text.lastTerm c' → c = c'

theorem Preprocessed.readAll_congr {p q : SourceProvider} {paths : List String}
    (same : ∀ path ∈ paths, p.read path = q.read path) (c : Context) :
    readAll p paths c = readAll q paths c := by
  induction paths generalizing c with
  | nil => rfl
  | cons path paths ih =>
    obtain ⟨first, others⟩ := List.forall_mem_cons.1 same
    have own : read p path c = read q path c := by
      unfold read
      rw [first]
    simp only [readAll, own, ih others]

section
variable {s : FileStore} {options : Options} {path text text' : String} {file other : SourceFile}
  {start : Context}

theorem Load.Begins.congr
    (apart : ∀ listed ∈ options.preprocessedFiles, Path.normalForm listed ≠ Path.normalForm path)
    (same : file.SameButOrder other) (read' : SourceFile.ofText path text' = (other, []))
    (begins : Begins (s.insert path text).provider options path file start) :
    Begins (s.insert path text').provider options path other start := by
  obtain ⟨c, preprocessed, -, declared, reporter⟩ := begins
  refine ⟨c, ?_, (SourceFile.read?_insert s path text').2 read',
    Registry.declare_congr same.records declared, reporter⟩
  rw [← preprocessed]
  exact (Preprocessed.readAll_congr (fun listed member =>
    (s.agreeBut_insert path text text').read listed (apart listed member)) _).symm

theorem OrderIsFree.congr (alike : ReadAlike path text text')
    (free : OrderIsFree (s.insert path text).provider options path) :
    OrderIsFree (s.insert path text').provider options path := by
  refine ⟨free.apart, ?_, ?_⟩
  · intro other start begins
    obtain ⟨c, -, read', -⟩ := id begins
    obtain ⟨file, read, same⟩ := alike.back other ((SourceFile.read?_insert s path text').1 read')
    exact (free.oneFileEach file start (begins.congr free.apart same read)).congr
      (s.agreeBut_insert path text text') same.imports.symm
  · intro other read' c first c' second
    obtain ⟨file, read, same⟩ := alike.back other ((SourceFile.read?_insert s path text').1 read')
    exact free.ends file ((SourceFile.read?_insert s path text).2 read)
      c (same.imports.mem_iff.1 first) c' (same.imports.mem_iff.1 second)

/-! ## The same load -/

variable {d : Declaration} {stops : List ImportWalk.Stop} {w : ImportWalk.Walk}

open ImportWalk in
/-- What can be loaded from one text can be loaded from the other, and comes to the same. -/
theorem Loadable.congr (free : OrderIsFree (s.insert path text).provider options path)
    (same : file.SameButOrder other) (read' : SourceFile.ofText path text' = (other, []))
    (loadable : Loadable (s.insert path text).provider options path file d start stops w) :
    ∃ d' stops' w',
      Loadable (s.insert path text').provider options path other d' start stops' w' ∧
        (d.finished (file.document.names w.context.registry)).placeless =
          (d'.finished (other.document.names w'.context.registry)).placeless := by
  -- the other file declares one type too
  have types := same.types
  rw [loadable.only, List.map_singleton] at types
  obtain ⟨d', only, placeless⟩ := List.map_eq_singleton_iff.1 types.symm
  -- the walks from the two files come to the same files
  obtain ⟨stops', w', walked', -⟩ := ofFile_course (s.insert path text') options path
    (FileBuild.fresh.openedAs path (.built other 0)) start
  have classes : (FileBuild.fresh.openedAs path (.built file 0)).classes ~
      (FileBuild.fresh.openedAs path (.built other 0)).classes := same.imports
  obtain ⟨clean, registry, opened⟩ := walk_congr (s.agreeBut_insert path text text') classes
    (free.oneFileEach file start loadable.begins) loadable.walked walked' loadable.clean
  have names : file.document.names w.context.registry =
      other.document.names w'.context.registry := by
    obtain ⟨c, -, read, -⟩ := loadable.begins
    rw [registry]
    exact Registry.canonical?_perm _ same.imports (free.ends file read)
  have resolved : (d.mapTypes (.resolve (file.document.names w.context.registry))).placeless =
      (d'.mapTypes (.resolve (other.document.names w'.context.registry))).placeless := by
    rw [Declaration.placeless_resolve, Declaration.placeless_resolve, placeless, names]
  refine ⟨d', stops', w', ⟨loadable.begins.congr free.apart same read', only, ?_, ?_, walked',
    clean, ?_, ?_⟩, ?_⟩
  · have kinds := congrArg (TypeRecord.kind ∘ TypeRecord.ofDeclaration) placeless
    simp only [Function.comp_def, Declaration.placeless_ofDeclaration] at kinds
    exact fun kind => loadable.defined (kinds.symm.trans kind)
  · have placed := loadable.placed
    rw [← List.map_eq_nil_iff (f := Diagnostic.placeless), ← Declaration.placeless_placement] at placed ⊢
    rwa [placeless]
  · intro stop member
    have source : stop.source ∈ stops'.map Stop.source := List.mem_map_of_mem member
    have sources := sources_of_walk loadable.walked
    have known {p : Pending} (member : p ∈ stops.map Stop.source) :
        (p.build.document.map (·.unresolvedNotes w.context.registry)).getD [] = [] := by
      obtain ⟨twin, inside, rfl⟩ := List.mem_map.1 member
      exact loadable.known twin inside
    rw [sources_of_walk walked'] at source
    rw [sources] at known
    unfold Stop.unresolved
    rw [registry]
    rcases List.mem_cons.1 source with first | later
    · have build : stop.build = FileBuild.fresh.openedAs path (.built other 0) :=
        congrArg Pending.build first
      rw [registry] at names
      rw [build]
      exact Document.silent_congr names same.types (known List.mem_cons_self)
    · exact known (List.mem_cons_of_mem _ (opened.mem_iff.2 later))
  · rw [registry]
    exact loadable.passes.congr (by rw [resolved, registry])
  · rw [Declaration.placeless_finished, Declaration.placeless_finished, placeless, names]

theorem loadUnit_congr (alike : ReadAlike path text text')
    (free : OrderIsFree (s.insert path text).provider options path) {u : LoadedUnit} {c : Context}
    (loaded : loadUnit (s.insert path text).provider options path .empty = .ok u c) :
    ∃ u' c', loadUnit (s.insert path text').provider options path .empty = .ok u' c' ∧
      u.declaration.placeless = u'.declaration.placeless := by
  obtain ⟨file, d, start, stops, w, loadable, own⟩ := loadable_of_loads loaded
  obtain ⟨_, -, read, -⟩ := loadable.begins
  obtain ⟨other, read', same⟩ := alike.there file ((SourceFile.read?_insert s path text).1 read)
  obtain ⟨d', stops', w', loadable', placeless⟩ := loadable.congr free same read'
  obtain ⟨u', c', loaded', own'⟩ := loadable'.loads
  exact ⟨u', c', loaded', by rw [own, own', placeless]⟩

end

/-- The canonical names of all types in a declaration, nested ones included, in the order of
writing. -/
def Declaration.resolvedNames (d : Declaration) : List (Option String) :=
  (d.types.flatMap TypeExpr.parts).map (·.head.canonical)

theorem Declaration.resolvedNames_placeless (d : Declaration) :
    d.placeless.resolvedNames = d.resolvedNames := by
  simp [resolvedNames, placeless_types, List.flatMap_map, List.map_flatMap, Function.comp_def,
    TypeHead.placeless]

/-- Both texts fail to load, or both load and their types have the same names. -/
structure SameOutcome (s : FileStore) (options : Options) (path text text' : String) : Prop where
  succeeds : (∃ u c, loadUnit (s.insert path text).provider options path .empty = .ok u c) ↔
    ∃ u c, loadUnit (s.insert path text').provider options path .empty = .ok u c
  names : ∀ u c u' c',
    loadUnit (s.insert path text).provider options path .empty = .ok u c →
    loadUnit (s.insert path text').provider options path .empty = .ok u' c' →
    u.declaration.resolvedNames = u'.declaration.resolvedNames

/-- If every class that imports lead to is declared by its own file and by no other, and no two
imports of the input end alike, the order of its imports does not matter. -/
theorem loadUnit_ignores_import_order (s : FileStore) (options : Options) (path text text' : String)
    (permuted : ImportsPermuted text text')
    (free : OrderIsFree (s.insert path text).provider options path) :
    SameOutcome s options path text text' := by
  have alike := permuted.readAlike path
  constructor
  · constructor
    · rintro ⟨u, c, loaded⟩
      obtain ⟨u', c', loaded', -⟩ := loadUnit_congr alike free loaded
      exact ⟨u', c', loaded'⟩
    · rintro ⟨u', c', loaded'⟩
      obtain ⟨u, c, loaded, -⟩ := loadUnit_congr alike.symm (free.congr alike) loaded'
      exact ⟨u, c, loaded⟩
  · intro u c u' c' loaded loaded'
    obtain ⟨v, _, again, same⟩ := loadUnit_congr alike free loaded
    cases loaded'.symm.trans again
    rw [← Declaration.resolvedNames_placeless, same, Declaration.resolvedNames_placeless]

/-! ## With and without two imports that end alike -/

instance (file : SourceFile) (className : String) : Decidable (file.Answers className) :=
  inferInstanceAs (Decidable (∃ d ∈ file.types, d.canonical = className ∨ d.name = className))

/-- A list of classes that is closed under imports holds all that are wanted, so it is enough to look
at the files of these. -/
theorem ImportWalk.OneFileEach.of_closed {provider : SourceProvider} {options : Options}
    {path : String} {g : Registry} {classes listed : List String} (own : classes ⊆ listed)
    (closed : ∀ c ∈ listed, ∀ target ∈ ImportSearch.file? provider options c,
      ∀ file ∈ SourceFile.read? provider target, ∀ i ∈ file.imports, i.className ∈ listed)
    (each : ∀ c ∈ listed, ∀ other ∈ listed, ∀ target ∈ ImportSearch.file? provider options other,
      ∀ file ∈ SourceFile.read? provider target,
        (file.Answers c ↔ ImportSearch.file? provider options c = some target)) :
    OneFileEach provider options path g classes := by
  have inside {c : String} (wanted : Wanted provider options path g classes c) : c ∈ listed := by
    induction wanted with
    | own member => exact own member
    | further _ leads read member ih => exact closed _ ih _ leads.found _ read _ member
  intro c wanted _ other target file wantedOther leads read
  exact each c (inside wanted) other (inside wantedOther) target leads.found file read

/-- Three parcelables, two of them with one simple name. -/
def threeParcelables : FileStore :=
  ((FileStore.empty.insert "a/A.aidl" "package a; parcelable A;").insert
    "b/A.aidl" "package b; parcelable A;").insert
    "c/C.aidl" "package c; import a.A; parcelable C;"

def importsOf (first second : String) : String :=
  "import " ++ first ++ "; import " ++ second ++ "; interface I \x7b A f(); \x7d"

/-- An import statement for the class, with these pieces behind it. -/
def slotOf (className : String) (behind : List PieceKind) : ImportSlot :=
  ⟨(Piece.visible className).filter (· ≠ .token (.mark .semicolon)), behind, by simp⟩

theorem permuted_of_slots {text text' : String} (first second body : String)
    (own : Piece.visible text =
      [slotOf first [], slotOf second (Piece.visible body)].flatMap ImportSlot.pieces)
    (other : Piece.visible text' =
      [slotOf second [], slotOf first (Piece.visible body)].flatMap ImportSlot.pieces) :
    ImportsPermuted text text' :=
  .mk [] [slotOf first [], slotOf second (Piece.visible body)]
    [slotOf second [], slotOf first (Piece.visible body)] own other (.swap _ _ _) rfl

theorem importsOf_permuted :
    ImportsPermuted (importsOf "a.A" "b.A") (importsOf "b.A" "a.A") ∧
      ImportsPermuted (importsOf "a.A" "c.C") (importsOf "c.C" "a.A") := by
  constructor
  · exact permuted_of_slots "a.A" "b.A" "interface I \x7b A f(); \x7d"
      (by decide +kernel) (by decide +kernel)
  · exact permuted_of_slots "a.A" "c.C" "interface I \x7b A f(); \x7d"
      (by decide +kernel) (by decide +kernel)

theorem import_order_matters :
    ¬ ∀ (s : FileStore) (options : Options) (path text text' : String),
      ImportsPermuted text text' → SameOutcome s options path text text' := by
  intro all
  have same := all threeParcelables searchHere "I.aidl" _ _ importsOf_permuted.1
  have first : ofLoaded (fun u _ => u.declaration.resolvedNames)
      (loadUnit (threeParcelables.insert "I.aidl" (importsOf "a.A" "b.A")).provider searchHere
        "I.aidl" .empty) = some [some "a.A"] := by
    decide +kernel
  have second : ofLoaded (fun u _ => u.declaration.resolvedNames)
      (loadUnit (threeParcelables.insert "I.aidl" (importsOf "b.A" "a.A")).provider searchHere
        "I.aidl" .empty) = some [some "b.A"] := by
    decide +kernel
  obtain ⟨u, c, loaded, names⟩ := exists_of_ofLoaded first
  obtain ⟨u', c', loaded', names'⟩ := exists_of_ofLoaded second
  have equal := same.names u c u' c' loaded loaded'
  rw [names, names'] at equal
  revert equal
  decide

theorem threeParcelables_orderIsFree :
    OrderIsFree (threeParcelables.insert "I.aidl" (importsOf "a.A" "c.C")).provider searchHere
      "I.aidl" := by
  have imports : ∀ file ∈ SourceFile.read?
      (threeParcelables.insert "I.aidl" (importsOf "a.A" "c.C")).provider "I.aidl",
      file.imports.map ImportStatement.className = ["a.A", "c.C"] := by
    decide +kernel
  refine ⟨by decide, ?_, ?_⟩
  · rintro file start ⟨_, -, read, -⟩
    rw [imports file read]
    exact .of_closed (List.Subset.refl _) (by decide +kernel) (by decide +kernel)
  · intro file read
    rw [imports file read]
    decide +kernel

theorem threeParcelables_ignores_import_order :
    ImportsPermuted (importsOf "a.A" "c.C") (importsOf "c.C" "a.A") ∧
      OrderIsFree (threeParcelables.insert "I.aidl" (importsOf "a.A" "c.C")).provider searchHere
        "I.aidl" ∧
      (∃ u c, loadUnit (threeParcelables.insert "I.aidl" (importsOf "a.A" "c.C")).provider searchHere
        "I.aidl" .empty = .ok u c ∧ u.declaration.resolvedNames = [some "a.A"]) ∧
      SameOutcome threeParcelables searchHere "I.aidl" (importsOf "a.A" "c.C")
        (importsOf "c.C" "a.A") := by
  have loaded : ofLoaded (fun u _ => u.declaration.resolvedNames)
      (loadUnit (threeParcelables.insert "I.aidl" (importsOf "a.A" "c.C")).provider searchHere
        "I.aidl" .empty) = some [some "a.A"] := by
    decide +kernel
  exact ⟨importsOf_permuted.2, threeParcelables_orderIsFree, exists_of_ofLoaded loaded,
    loadUnit_ignores_import_order _ _ _ _ _ importsOf_permuted.2 threeParcelables_orderIsFree⟩

end IdlFrontEnd
