import IdlFrontEnd.Proofs.Grammar.Spelled
import IdlFrontEnd.Proofs.Unit.Closure
import IdlFrontEnd.Proofs.Unit.Conformance

/-!
# Loaded units conform to the schema

The names in an export come from three places. Names of declarations, imports and packages were read
from a text and so are spelled with identifiers; canonical names of types are built in or those of
records; and a record comes from a declaration or from a line of a preprocessed file. Only for the
last kind is nothing checked, and only for methods without written numbers is there no bound on how
many there may be.
-/
namespace IdlFrontEnd

open Schema

/-! ## Names in a file -/

theorem Text.IsQualified.isQualified {text : String} (qualified : Text.IsQualified text) :
    isQualified text = true :=
  List.all_eq_true.2 fun term member => (qualified term member).identifier

namespace Declaration.Spelled

variable {package : List String} {d : Declaration}

theorem canonical (spelled : d.Spelled package)
    (words : ∀ term ∈ package, Text.IsFreeWord term) : isQualified d.canonical = true := by
  unfold Declaration.canonical
  rw [spelled.package]
  exact (Text.isQualified_canonicalName words spelled.qualified).isQualified

theorem isPackage (spelled : d.Spelled package)
    (words : ∀ term ∈ package, Text.IsFreeWord term) : isPackage d.package = true := by
  unfold Schema.isPackage Declaration.package
  rw [spelled.package]
  by_cases none : package = []
  · simp [none, Text.joinDots]
  · simp [(Text.isQualified_joinDots none words).isQualified]

theorem identifier (spelled : d.Spelled package) (kind : d.kind = .interface) :
    Text.isIdentifier d.name = true := by
  obtain ⟨-, -, body⟩ := spelled
  unfold Declaration.kind at kind
  generalize d.body = written at body kind
  cases body with
  | parcelable | structured => cases kind
  | interface own _ _ _ => exact own.identifier

/-- No list of type parameters is empty. -/
theorem params (spelled : d.Spelled package) {t p : TypeExpr} (mentioned : t ∈ d.types)
    (part : p ∈ t.parts) : p.params ≠ some [] := by
  have type : t.Spelled := by
    have own := Declaration.mem_types_iff.1 mentioned
    obtain ⟨-, -, body⟩ := spelled
    generalize written : d.body = b at body
    cases own with
    | field same member =>
      cases written.symm.trans same
      cases body with
      | structured _ _ each => exact (each _ member).type
    | returned same member =>
      cases written.symm.trans same
      cases body with
      | interface _ each _ _ => exact (each _ member).returnType
    | argument same member inner =>
      cases written.symm.trans same
      cases body with
      | interface _ each _ _ => exact ((each _ member).arguments _ inner).type
    | constant same member =>
      cases written.symm.trans same
      cases body with
      | interface _ _ each _ => exact (each _ member).type
  exact (type p part).params

end Declaration.Spelled

/-! ## What the registry holds -/

/-- The build has opened a file that is spelled as a text spells it. -/
def FileBuild.IsSpelled (b : FileBuild) : Prop :=
  ∃ file : Grammar.SourceFile, file.Spelled ∧ b.document = some file.document

theorem FileBuild.isSpelled_of_parse {c next : Context} {provider : SourceProvider}
    {path : String} {build : FileBuild}
    (h : fresh.parse c provider path = (.ok (), build, next)) : build.IsSpelled := by
  obtain ⟨text, file, -, silent, document, -⟩ := parse_ok h
  exact ⟨file, Grammar.ofText_spelled silent, document⟩

theorem FileBuild.IsSpelled.canonical {b : FileBuild} (spelled : b.IsSpelled) :
    ∀ d ∈ b.types, isQualified d.canonical = true := by
  obtain ⟨file, own, document⟩ := spelled
  intro d member
  have inside : d ∈ file.types := by
    simpa [types, document, Grammar.SourceFile.document] using member
  exact (own.types d inside).canonical own.words

/-- Every canonical name in the registry is of the right form. -/
def Registry.Qualified (g : Registry) : Prop := ∀ r ∈ g.records, isQualified r.canonical = true

theorem Registry.Qualified.declare {g : Registry} (qualified : g.Qualified)
    {ds : List Declaration} (each : ∀ d ∈ ds, isQualified d.canonical = true) :
    (g.declare ds).1.Qualified := by
  intro r member
  rcases of_mem_declare member with old | ⟨d, inside, rfl⟩
  · exact qualified r old
  · exact each d inside

theorem Registry.Qualified.knows {g : Registry} (qualified : g.Qualified) {name : String}
    (known : g.Knows name) : isQualified name = true := by
  rcases known with builtin | ⟨r, member, rfl⟩
  · have all : ∀ name ∈ builtins, isQualified name = true := by decide
    exact all name builtin
  · exact qualified r member

/-- Every name that the preprocessed files list is qualified. -/
def Options.ListsQualified (provider : SourceProvider) (options : Options) : Prop :=
  ∀ file ∈ options.preprocessedFiles, ∀ text, provider.read file = .ok text →
    ∀ line ∈ Text.lines text, ∀ r, Preprocessed.parseLine? line = some r →
      isQualified r.canonical = true

theorem Options.ListsQualified.registry {provider : SourceProvider} {options : Options}
    (listed : options.ListsQualified provider) {a : Unit} {c : Context}
    (h : Load.preprocessedFiles provider options .empty = .ok a c) : c.registry.Qualified := by
  have read := Load.preprocessedFiles_eq_ok_iff.1 h
  have last : c = (Preprocessed.readAll provider options.preprocessedFiles .empty).2 := by rw [read]
  intro r member
  rw [last] at member
  rcases Preprocessed.of_mem_readAll member with old | ⟨file, listing, text, found, line, below, own⟩
  · cases old
  · exact listed file listing text found line below r own

open ImportWalk in
/-- All files that the walk comes to are spelled, and so are the names that it adds. -/
theorem ImportWalk.ofFile_spelled {provider : SourceProvider} {options : Options} {path : String}
    {build : FileBuild} {c : Context} {stops : List Stop} {w : Walk}
    (walked : ofFile provider options path build c = .ok stops w) (clean : w.clean = true)
    (own : build.IsSpelled) :
    (∀ stop ∈ stops, stop.build.IsSpelled) ∧
      (c.registry.Qualified → w.context.registry.Qualified) := by
  obtain ⟨stops', w', hrun, course, -, -, -⟩ :=
    run_course provider options (provider.limit + 1) (.start provider path build c)
  cases walked.symm.trans hrun
  generalize encounters provider options (provider.limit + 1) (.start provider path build c) = es
    at course
  have opened : ∀ p ∈ openings provider options es, p.build.IsSpelled := by
    intro p member
    obtain ⟨e, -, opening⟩ := List.mem_filterMap.1 member
    obtain ⟨-, next, parsed⟩ := Encounter.opening?_eq_some_iff.1 opening
    exact FileBuild.isSpelled_of_parse parsed
  constructor
  · intro stop member
    have source : stop.source ∈ stops.map Stop.source ++ w.pending :=
      List.mem_append_left _ (List.mem_map.2 ⟨stop, member, rfl⟩)
    rw [course.pending] at source
    rcases List.mem_append.1 source with first | later
    · have same : stop.source = ⟨path, build⟩ := by simpa [Walk.start] using first
      rw [show stop.build = build from congrArg Pending.build same]
      exact own
    · exact opened _ later
  · intro qualified
    have last : (c.registry.declare
        ((openings provider options es).flatMap fun p => p.build.types)).1 = w.context.registry :=
      congrArg Prod.fst (course.grown clean)
    rw [← last]
    refine qualified.declare fun d member => ?_
    obtain ⟨p, opening, inside⟩ := List.mem_flatMap.1 member
    exact (opened p opening).canonical d inside

/-! ## The unit -/

theorem ImportWalk.Stop.resolve_headers {stop : Stop} {g : Registry} {d : Declaration}
    (member : d ∈ (stop.resolve g).build.types) : ∃ e ∈ stop.build.types, d.header = e.header := by
  unfold resolve FileBuild.resolve at member
  split at member
  · exact ⟨d, member, rfl⟩
  · unfold FileBuild.types at member ⊢
    cases held : stop.build.document with
    | none => simp [held] at member
    | some document =>
      obtain ⟨e, inside, rfl⟩ : ∃ e ∈ document.types, e.mapTypes _ = d := by
        simpa [held, Document.resolve, Document.mapTypes] using member
      exact ⟨e, inside, Declaration.mapTypes_header _ e⟩

open ImportWalk in
/-- The first document of the walk from an open file is that of this file. -/
theorem ImportWalk.ofFile_first {provider : SourceProvider} {options : Options} {path : String}
    {build : FileBuild} {c : Context} {stops : List Stop} {w : Walk} {d : Document}
    (named : c.registry.Named) (opened : build.IsOpen) (held : build.document = some d)
    (walked : ofFile provider options path build c = .ok stops w) (g : Registry) :
    ∃ root later, documents 0 (stops.map (·.resolve g)) = some root :: later ∧
      root.types = (d.resolve g).types ∧ root.imports.map LoadedImport.statement = d.imports := by
  obtain ⟨stops', w', hrun, -, -, consecutive, -⟩ :=
    run_course provider options (provider.limit + 1) (.start provider path build c)
  cases walked.symm.trans hrun
  obtain ⟨links, others, w', -, again, -⟩ := ofFile_told named opened provider options path
  cases walked.symm.trans again
  have whole := (((consecutive 0 rfl).resolve g).le_target List.mem_cons_self).1
  have own : (Stop.resolve g ⟨path, build, links⟩).build.document = some (d.resolve g) := by
    rw [Stop.resolve_document opened.phase, held]
    rfl
  obtain ⟨root, joined, types, statements⟩ :=
    joined_of_held own whole 1 (documents 1 (others.map (·.resolve g)))
  exact ⟨root, _, by rw [List.map_cons, documents_cons, joined], types, statements⟩

/-- Where the parts of a loaded unit come from: the declaration from the only one of a file, with
its names resolved and its methods numbered, the imports from those of that file, and what is
attached to these from texts as well. -/
structure LoadedUnit.ReadFrom (path : String) (file : Grammar.SourceFile) (u : LoadedUnit) :
    Prop where
  declaration : ∃ written ∈ file.types, ∃ find,
    Method.idProblem? path [] false (written.mapTypes (TypeExpr.resolve find)).methods = none ∧
      u.declaration = (written.mapTypes (TypeExpr.resolve find)).withMethods
        (Method.numbered (written.mapTypes (TypeExpr.resolve find)).methods)
  statements : u.imports.map LoadedImport.statement = file.imports
  attached : ∀ i ∈ u.imports, ∀ document ∈ i.document, ∀ d ∈ document.types,
    isQualified d.canonical = true

open Load ImportWalk in
theorem loadUnit_readFrom {provider : SourceProvider} {options : Options} {path : String}
    {u : LoadedUnit} {c : Context} (loaded : loadUnit provider options path .empty = .ok u c) :
    ∃ file : Grammar.SourceFile, file.Spelled ∧ u.ReadFrom path file ∧
      (options.ListsQualified provider → c.registry.Qualified) := by
  obtain ⟨build, start, stops, w, document, hparse, opened, named, walked, clean, registry, first,
    imports, resolved, single, silent, declaration⟩ := loadUnit_ok Context.empty_named loaded
  obtain ⟨_, mid, hread, hparse⟩ := bind_eq_ok.1 hparse
  obtain ⟨text, file, -, quiet, held, declared⟩ := FileBuild.parse_ok (parse_eq_ok_iff.1 hparse)
  have spelled := Grammar.ofText_spelled quiet
  obtain ⟨each, grown⟩ := ofFile_spelled walked clean ⟨file, spelled, held⟩
  obtain ⟨root, later, all, types, statements⟩ :=
    ofFile_first named opened held walked w.context.registry
  have same : root = document := by
    rw [all] at first
    exact Option.some.inj first
  subst same
  refine ⟨file, spelled, ⟨?_, ?_, ?_⟩, ?_⟩
  · have member : resolved ∈ (file.document.resolve w.context.registry).types := by
      rw [← types, single]
      exact List.mem_singleton.2 rfl
    obtain ⟨written, inside, rfl⟩ := List.mem_map.1 member
    exact ⟨written, inside, _, silent, declaration⟩
  · rw [imports]
    exact statements
  · have qualified : ∀ stop ∈ stops.map (·.resolve w.context.registry),
        ∀ d ∈ stop.build.types, isQualified d.canonical = true := by
      intro stop member d inside
      obtain ⟨source, there, rfl⟩ := List.mem_map.1 member
      obtain ⟨e, written, header⟩ := Stop.resolve_headers inside
      have canonical := (each source there).canonical e written
      unfold Declaration.canonical Declaration.name at canonical ⊢
      rwa [header]
    intro i member inner attached
    rw [imports] at member
    have placed : some root ∈ documents 0 (stops.map (·.resolve w.context.registry)) := by
      rw [all]
      exact List.mem_cons_self
    exact (documents_forall qualified 0 placed).2 inner (.direct member attached)
  · intro listed
    rw [registry]
    apply grown
    have added : start.registry = (mid.registry.declare file.types).1 := by rw [declared]
    rw [added]
    exact (listed.registry hread).declare fun d inside =>
      (spelled.types d inside).canonical spelled.words

/-- Names and numbers of a resolved and numbered declaration are as the schema wants them. -/
theorem Declaration.Spelled.exportable {package : List String} {written : Declaration}
    (spelled : written.Spelled package) (words : ∀ term ∈ package, Text.IsFreeWord term)
    {g : Registry} (qualified : g.Qualified) {find : String → Option String} {d : Declaration}
    (same : d = (written.mapTypes (TypeExpr.resolve find)).withMethods
      (Method.numbered (written.mapTypes (TypeExpr.resolve find)).methods))
    (resolved : d.Resolved g)
    (numbers : ∀ m ∈ d.methods, ∀ n ∈ m.id.value?, minMethodId ≤ n ∧ n ≤ maxMethodId) :
    d.Exportable := by
  have header : d.header = written.header := by
    rw [same, withMethods_header, mapTypes_header]
  have kind : d.kind = written.kind := by
    rw [same, withMethods_kind, mapTypes_kind]
  constructor
  case numbers => exact numbers
  case types =>
    intro t mentioned p part
    obtain ⟨name, found, known⟩ := resolved.settled t mentioned p part
    refine ⟨⟨name, found, qualified.knows known⟩, ?_⟩
    rw [same, withMethods_types _ (Method.numbered_types _), mapTypes_types] at mentioned
    obtain ⟨source, there, rfl⟩ := List.mem_map.1 mentioned
    rw [TypeExpr.parts_resolve] at part
    obtain ⟨q, inside, rfl⟩ := List.mem_map.1 part
    have some := spelled.params there inside
    rw [TypeExpr.params_resolve]
    cases params : q.params with
    | none => simp
    | some ps => simpa [params] using some
  case canonical =>
    have own := spelled.canonical words
    unfold Declaration.canonical Declaration.name at own ⊢
    rwa [header]
  case package =>
    have own := spelled.isPackage words
    unfold Declaration.package at own ⊢
    rwa [header]
  case name =>
    have own := spelled.qualified.isQualified
    unfold Declaration.name at own ⊢
    rwa [header]
  case identifier =>
    intro interface
    have own := spelled.identifier (kind.symm.trans interface)
    unfold Declaration.name at own ⊢
    rwa [header]

/-- A loaded unit is exported to an object of the schema, if the names in the preprocessed files are
of the right form and there are not too many methods to number. -/
theorem loadUnit_conforms (provider : SourceProvider) (options : Options) (path : String)
    (u : LoadedUnit) (c : Context) (loaded : loadUnit provider options path .empty = .ok u c)
    (listed : options.ListsQualified provider)
    (few : (∀ m ∈ u.declaration.methods, m.id.written? = none) →
      u.declaration.methods.length ≤ 16777215) :
    ∃ json, Export.unit u.declaration u.imports = .ok json ∧
      admits json (.object .unit) = true := by
  obtain ⟨file, spelled, ⟨⟨written, inside, find, silent, same⟩, statements, attached⟩, names⟩ :=
    loadUnit_readFrom loaded
  have resolved : u.declaration.Resolved c.registry := by
    have honest := loadUnit_honest Context.empty_named provider options path
    exact (honest.of_ok loaded).2.own
  rw [same, Declaration.methods_numbered] at few
  have numbers := Method.numbered_inRange silent few
  rw [← Declaration.methods_numbered, ← same] at numbers
  have exportable := (spelled.types written inside).exportable spelled.words (names listed) same
    resolved numbers
  refine Export.unit_admitted exportable fun i member => ⟨?_, attached i member⟩
  have statement : i.statement ∈ file.imports := by
    rw [← statements]
    exact List.mem_map.2 ⟨i, member, rfl⟩
  exact (spelled.imports _ statement).isQualified

/-- An interface that uses a type of another file and one that a preprocessed file lists. -/
def mixedSources : FileStore :=
  ((FileStore.empty.insert "I.aidl"
    "import a.B; interface I { @nullable List<B> f(in B[] b, in C c); void g(); }").insert
    "a/B.aidl" "package a; parcelable B { Map<String, B> m; }").insert
    "listed" "parcelable lib.C;\n"

def searchWithList : Options := { searchHere with preprocessedFiles := ["listed"] }

theorem mixedSources_listsQualified : searchWithList.ListsQualified mixedSources.provider := by
  have each : ∀ line ∈ Text.lines "parcelable lib.C;\n", ∀ r ∈ Preprocessed.parseLine? line,
      isQualified r.canonical = true := by
    decide +kernel
  intro file member text found line inside r listed
  obtain rfl := List.mem_singleton.1 member
  have read : mixedSources.provider.read "listed" = .ok "parcelable lib.C;\n" := by decide +kernel
  cases read.symm.trans found
  exact each line inside r listed

theorem mixedSources_conforms :
    ∃ u c, loadUnit mixedSources.provider searchWithList "I.aidl" .empty = .ok u c ∧
      u.declaration.methods.map Method.name = ["f", "g"] ∧
      ∃ json, Export.unit u.declaration u.imports = .ok json ∧
        admits json (.object .unit) = true := by
  have evaluated :
      ofLoaded (fun u _ => u.declaration.methods.map Method.name)
        (loadUnit mixedSources.provider searchWithList "I.aidl" .empty) = some ["f", "g"] := by
    decide +kernel
  obtain ⟨u, c, loaded, names⟩ := exists_of_ofLoaded evaluated
  refine ⟨u, c, loaded, names, ?_⟩
  refine loadUnit_conforms _ _ _ u c loaded mixedSources_listsQualified fun _ => ?_
  have count := congrArg List.length names
  simp only [List.length_map, List.length_cons, List.length_nil] at count
  omega

end IdlFrontEnd
