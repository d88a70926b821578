import IdlFrontEnd.Proofs.Unit.Guarantees
import IdlFrontEnd.Proofs.Unit.Load
import IdlFrontEnd.Proofs.Unit.WalkAlike

/-!
# Loading from stores that are alike

Every step of loading looks at names, kinds and numbers and never at places, comments or at what was
reported before. From stores that are alike a unit is therefore loaded alike: both loads give units
that differ in places only, or both fail with the same error, and they report the same messages in
the same order.
-/
namespace IdlFrontEnd

open Grammar (SourceFile SameTokens)

/-! ## Units and errors without places -/

def LoadError.placeless : LoadError → LoadError
  | .fatal f => .fatal f.placeless
  | other => other

/-- Errors that are no fault of the program name no place. -/
theorem LoadError.placeless_of_mild {e : LoadError} (mild : ¬ e.IsFault) : e.placeless = e := by
  cases e with
  | fatal f => exact absurd trivial mild
  | _ => rfl

def LoadedUnit.placeless (u : LoadedUnit) : LoadedUnit :=
  ⟨u.declaration.placeless, u.imports.map LoadedImport.placeless⟩

namespace Load

/-- How two steps of loading compare. -/
abbrev EndsAlike {α : Type} (base other : Reporter) (value : α → α → Prop) :
    EStateM.Result LoadError Context α → EStateM.Result LoadError Context α → Prop :=
  Ends (fun e f => e.placeless = f.placeless) (Context.Alike base other) value

section
variable {base other : Reporter} {c c' : Context} {α : Type} {value : α → α → Prop}

theorem fail_alike (alike : c.Alike base other c') (error : LoadError)
    {notes more : List Diagnostic}
    (same : notes.map Diagnostic.placeless = more.map Diagnostic.placeless) :
    EndsAlike base other value ((fail error notes : Load α) c) ((fail error more : Load α) c') :=
  .error rfl (alike.report same)

theorem refuse_alike (alike : c.Alike base other c') (error : LoadError)
    {notes more : List Diagnostic}
    (same : notes.map Diagnostic.placeless = more.map Diagnostic.placeless) :
    EndsAlike base other (fun _ _ => True) (refuse error notes c) (refuse error more c') := by
  have silent := congrArg List.isEmpty same
  rw [List.isEmpty_map, List.isEmpty_map] at silent
  unfold refuse
  rw [silent]
  split
  · exact .ok trivial alike
  · exact fail_alike alike error same

theorem verdict_alike (alike : c.Alike base other c') (error : LoadError) {v w : Verdict}
    (same : v.placeless = w.placeless) :
    EndsAlike base other (fun _ _ => True) (verdict error v c) (verdict error w c') := by
  have notes : v.notes.map Diagnostic.placeless = w.notes.map Diagnostic.placeless := by
    rw [← Verdict.placeless_notes, same, Verdict.placeless_notes]
  have reported := alike.report notes
  unfold verdict report
  rw [modify_bind, modify_bind]
  cases v with
  | done passed told =>
    cases w with
    | stopped => cases same
    | done passed' told' =>
      obtain rfl : passed = passed' := (Verdict.done.inj same).1
      cases passed with
      | true => exact .ok trivial reported
      | false => exact .error rfl reported
  | stopped told f =>
    cases w with
    | done => cases same
    | stopped told' g =>
      exact .error (congrArg LoadError.fatal (Verdict.stopped.inj same).2) reported

/-! ## Preprocessed files and the input -/

theorem readAll_alike {p q : SourceProvider} {paths : List String}
    (reads : ∀ path ∈ paths, p.read path = q.read path) (alike : c.Alike base other c') :
    (Preprocessed.readAll p paths c).1 = (Preprocessed.readAll q paths c').1 ∧
      (Preprocessed.readAll p paths c).2.Alike base other (Preprocessed.readAll q paths c').2 := by
  induction paths generalizing c c' with
  | nil => exact ⟨rfl, alike⟩
  | cons path paths ih =>
    obtain ⟨own, rest⟩ := List.forall_mem_cons.1 reads
    have first : (Preprocessed.read p path c).1 = (Preprocessed.read q path c').1 ∧
        (Preprocessed.read p path c).2.Alike base other (Preprocessed.read q path c').2 := by
      unfold Preprocessed.read
      rw [own, alike.registry]
      cases q.read path with
      | error e => exact ⟨rfl, alike.report rfl⟩
      | ok text => exact ⟨rfl, (alike.withRegistry rfl).report rfl⟩
    obtain ⟨all, last⟩ := ih rest first.2
    refine ⟨?_, last⟩
    simp only [Preprocessed.readAll, first.1, all]

section
variable {s s' : FileStore} {o o' : Options}

theorem preprocessedFiles_alike (sources : SourcesAlike s s' o o')
    (alike : c.Alike base other c') :
    EndsAlike base other (fun _ _ => True) (preprocessedFiles s.provider o c)
      (preprocessedFiles s'.provider o' c') := by
  obtain ⟨passed, contexts⟩ := readAll_alike (p := s.provider) (q := s'.provider) sources.listings
    alike
  unfold preprocessedFiles
  rw [get_bind, get_bind, ← sources.listed]
  generalize Preprocessed.readAll s.provider o.preprocessedFiles c = read at passed contexts ⊢
  generalize Preprocessed.readAll s'.provider o.preprocessedFiles c' = read' at passed contexts ⊢
  obtain ⟨ok, next⟩ := read
  obtain ⟨ok', next'⟩ := read'
  dsimp only at passed contexts ⊢
  subst passed
  rw [set_bind, set_bind]
  cases ok with
  | true => exact .ok trivial contexts
  | false => exact .error rfl contexts

/-- Two builds of one file, whose imports lead to the same paths. -/
structure BuildsAlike (s s' : FileStore) (o o' : Options) (b b' : FileBuild) : Prop where
  same : b.placeless = b'.placeless
  leads : ∀ i ∈ b.imports, LeadsAlike s s' o o' i

theorem parse_alike (sources : SourcesAlike s s' o o') (alike : c.Alike base other c')
    (path : String) :
    EndsAlike base other (BuildsAlike s s' o o') (parse s.provider path c)
      (parse s'.provider path c') := by
  have reads : ReadsAlike path (s.provider.read path) (s'.provider.read path) := sources.reads path
  obtain ⟨result, builds, contexts⟩ := FileBuild.parse_alike alike reads
  unfold parse
  rw [get_bind, get_bind]
  generalize hparse : FileBuild.fresh.parse c s.provider path = parsed at result builds contexts
  generalize FileBuild.fresh.parse c' s'.provider path = parsed' at result builds contexts
  obtain ⟨outcome, build, next⟩ := parsed
  obtain ⟨outcome', build', next'⟩ := parsed'
  dsimp only at result builds contexts ⊢
  subst result
  rw [set_bind, set_bind]
  cases outcome with
  | ok => exact .ok ⟨builds, sources.leads_of_parse hparse⟩ contexts
  | error failure => exact .error rfl contexts

end

theorem onlyDeclaration_alike (alike : c.Alike base other c') (path : String)
    {ds ds' : List Declaration}
    (same : ds.map Declaration.placeless = ds'.map Declaration.placeless) :
    EndsAlike base other (fun d d' => d.placeless = d'.placeless) (onlyDeclaration path ds c)
      (onlyDeclaration path ds' c') := by
  have empty := congrArg List.isEmpty same
  rw [List.isEmpty_map, List.isEmpty_map] at empty
  have kinds : ds.all isUnstructured = ds'.all isUnstructured := by
    have own (ds : List Declaration) :
        (ds.map Declaration.placeless).all isUnstructured = ds.all isUnstructured := by
      have kind (d : Declaration) : d.placeless.kind = d.kind :=
        congrArg TypeRecord.kind d.placeless_ofDeclaration
      simp only [List.all_map, Function.comp_def, isUnstructured, kind]
      rfl
    rw [← own, same, own]
  unfold onlyDeclaration
  rw [empty, kinds]
  split
  · exact fail_alike alike _ rfl
  split
  · exact .error rfl alike
  cases ds with
  | nil =>
    obtain rfl := List.map_eq_nil_iff.1 same.symm
    exact fail_alike alike _ rfl
  | cons d rest =>
    obtain ⟨d', rest', rfl, first, others⟩ := List.map_eq_cons_iff.1 same.symm
    cases rest with
    | nil =>
      obtain rfl := List.map_eq_nil_iff.1 others
      exact .ok first.symm alike
    | cons e more =>
      obtain ⟨e', more', rfl, -, -⟩ := List.map_eq_cons_iff.1 others
      exact fail_alike alike _ rfl

theorem checkPlacement_alike (alike : c.Alike base other c') (path package : String)
    {d d' : Declaration} (same : d.placeless = d'.placeless) :
    EndsAlike base other (fun _ _ => True) (checkPlacement path package d c)
      (checkPlacement path package d' c') := by
  have notes : (d.placementNotes path).map Diagnostic.placeless =
      (d'.placementNotes path).map Diagnostic.placeless := by
    rw [← Declaration.placeless_placement, same, Declaration.placeless_placement]
  have silent := congrArg List.isEmpty notes
  rw [List.isEmpty_map, List.isEmpty_map] at silent
  unfold checkPlacement
  simp only [silent]
  split
  · exact .ok trivial alike
  · exact fail_alike alike _ (by rw [List.map_append, List.map_append, notes])

/-! ## Imports and names -/

section
variable {s s' : FileStore} {o o' : Options}

open ImportWalk

theorem followImports_alike (sources : SourcesAlike s s' o o') (alike : c.Alike base other c')
    (path : String) {build build' : FileBuild} (builds : BuildsAlike s s' o o' build build') :
    EndsAlike base other
      (fun stops stops' => stops.map Stop.placeless = stops'.map Stop.placeless)
      (followImports s.provider o path build c) (followImports s'.provider o' path build' c') := by
  have walked := ofFile_alike sources alike builds.same builds.leads path
  unfold followImports
  generalize ofFile s.provider o path build c = first at walked
  generalize ofFile s'.provider o' path build' c' = second at walked
  cases walked with
  | error same walks => exact .error (by rw [same]) walks.context
  | ok same walks =>
    dsimp only
    rw [walks.clean]
    split
    · exact .ok same walks.context
    · exact .error rfl walks.context

theorem resolveStop_alike (alike : c.Alike base other c') {stop stop' : Stop}
    (same : stop.placeless = stop'.placeless) :
    EndsAlike base other (fun r r' => r.1.placeless = r'.1.placeless ∧ r.2 = r'.2)
      (resolveStop stop c) (resolveStop stop' c') := by
  have build : stop.build.placeless = stop'.build.placeless := (congrArg Stop.build same :)
  have path : stop.path = stop'.path := (congrArg Stop.path same :)
  have links : stop.links = stop'.links := (congrArg Stop.links same :)
  obtain ⟨result, builds, contexts⟩ := FileBuild.resolve_alike alike build
  unfold resolveStop
  rw [get_bind, get_bind]
  generalize stop.build.resolve c = resolved at result builds contexts ⊢
  generalize stop'.build.resolve c' = resolved' at result builds contexts ⊢
  obtain ⟨outcome, b, next⟩ := resolved
  obtain ⟨outcome', b', next'⟩ := resolved'
  dsimp only at result builds contexts ⊢
  subst result
  rw [set_bind, set_bind]
  have after : ({ stop with build := b } : Stop).placeless =
      ({ stop' with build := b' } : Stop).placeless := by
    simp only [Stop.placeless, builds, path, links]
  cases outcome with
  | ok => exact .ok ⟨after, rfl⟩ contexts
  | error failure =>
    cases failure with
    | fatal f => exact .error rfl contexts
    | unreadable | malformed | unresolved => exact .ok ⟨after, rfl⟩ contexts

theorem resolveStops_alike (alike : c.Alike base other c') {stops stops' : List Stop}
    (same : stops.map Stop.placeless = stops'.map Stop.placeless) :
    EndsAlike base other
      (fun rs rs' => (rs.map Prod.fst).map Stop.placeless = (rs'.map Prod.fst).map Stop.placeless ∧
        rs.map Prod.snd = rs'.map Prod.snd)
      (resolveStops stops c) (resolveStops stops' c') := by
  induction stops generalizing stops' c c' with
  | nil =>
    obtain rfl := List.map_eq_nil_iff.1 same.symm
    exact .ok ⟨rfl, rfl⟩ alike
  | cons stop stops ih =>
    obtain ⟨stop', stops', rfl, first, others⟩ := List.map_eq_cons_iff.1 same.symm
    refine (resolveStop_alike alike first.symm).bind fun r r' mid mid' own alike => ?_
    refine (ih alike others.symm).bind fun rs rs' last last' rest alike => ?_
    refine .ok ⟨?_, ?_⟩ alike
    · rw [List.map_cons, List.map_cons, List.map_cons, List.map_cons, own.1, rest.1]
    · rw [List.map_cons, List.map_cons, own.2, rest.2]

theorem closure_alike (sources : SourcesAlike s s' o o') (alike : c.Alike base other c')
    (path : String) {build build' : FileBuild} (builds : BuildsAlike s s' o o' build build') :
    EndsAlike base other (fun document document' => document.placeless = document'.placeless)
      (closure s.provider o path build c) (closure s'.provider o' path build' c') := by
  refine (followImports_alike sources alike path builds).bind fun stops stops' _ _ same alike => ?_
  refine (resolveStops_alike alike same).bind fun rs rs' last last' resolved alike => ?_
  have all (rs : List (Stop × Bool)) : rs.all Prod.snd = (rs.map Prod.snd).all id := by
    rw [List.all_map]
    rfl
  have passed : rs.all Prod.snd = rs'.all Prod.snd := by rw [all, resolved.2, all]
  have documents : (documents 0 (rs.map Prod.fst)).map (Option.map LoadedDocument.placeless) =
      (documents 0 (rs'.map Prod.fst)).map (Option.map LoadedDocument.placeless) := by
    rw [← documents_placeless, resolved.1, documents_placeless]
  rw [passed]
  split
  · exact .error rfl alike
  · generalize ImportWalk.documents 0 (rs.map Prod.fst) = ds at documents
    generalize ImportWalk.documents 0 (rs'.map Prod.fst) = ds' at documents
    have heads (ds : List (Option LoadedDocument)) :
        ((ds.map (Option.map LoadedDocument.placeless)).head?.join) =
          ds.head?.join.map LoadedDocument.placeless := by
      rcases ds with _ | ⟨_ | d, _⟩ <;> rfl
    have same : ds.head?.join.map LoadedDocument.placeless =
        ds'.head?.join.map LoadedDocument.placeless := by rw [← heads, documents, heads]
    cases hd : ds.head?.join with
    | none =>
      rw [hd] at same
      rw [Option.map_eq_none_iff.1 same.symm]
      exact fail_alike alike _ rfl
    | some document =>
      rw [hd] at same
      obtain ⟨document', hd', equal⟩ := Option.map_eq_some_iff.1 same.symm
      rw [hd']
      exact .ok equal.symm alike

end

theorem release_alike (alike : c.Alike base other c') (path : String)
    {document document' : LoadedDocument} (same : document.placeless = document'.placeless) :
    EndsAlike base other (fun d d' => d.placeless = d'.placeless) (release path document c)
      (release path document' c') := by
  obtain ⟨types, imports⟩ := document
  obtain ⟨types', imports'⟩ := document'
  rw [LoadedDocument.placeless_mk, LoadedDocument.placeless_mk] at same
  have same := (LoadedDocument.mk.inj same).1
  unfold release LoadedDocument.types
  cases types with
  | nil =>
    obtain rfl := List.map_eq_nil_iff.1 same.symm
    exact fail_alike alike _ rfl
  | cons d rest =>
    obtain ⟨d', rest', rfl, first, others⟩ := List.map_eq_cons_iff.1 same.symm
    cases rest with
    | nil =>
      obtain rfl := List.map_eq_nil_iff.1 others
      exact .ok first.symm alike
    | cons e more =>
      obtain ⟨e', more', rfl, -, -⟩ := List.map_eq_cons_iff.1 others
      exact fail_alike alike _ rfl

/-! ## Checks and numbers -/

theorem checkStructured_alike (alike : c.Alike base other c') {o o' : Options}
    (strict : o.structured = o'.structured) (d d' : Declaration) :
    EndsAlike base other (fun _ _ => True) (checkStructured o d c) (checkStructured o' d' c') := by
  unfold checkStructured
  rw [get_bind, get_bind, alike.registry, strict]
  refine refuse_alike alike _ ?_
  split
  · simp
  · rfl

theorem numberMethods_alike (alike : c.Alike base other c') (path : String) {d d' : Declaration}
    (same : d.placeless = d'.placeless) :
    EndsAlike base other (fun e e' => e.placeless = e'.placeless) (numberMethods path d c)
      (numberMethods path d' c') := by
  have methods : d.methods.map Method.placeless = d'.methods.map Method.placeless := by
    rw [← Declaration.placeless_methods, same, Declaration.placeless_methods]
  have problem : (Method.idProblem? path [] false d.methods).map Diagnostic.placeless =
      (Method.idProblem? path [] false d'.methods).map Diagnostic.placeless := by
    rw [← Method.placeless_idProblem?, methods, Method.placeless_idProblem?]
  have assigned : (Method.assignIds path d.methods).1.map Method.placeless =
        (Method.assignIds path d'.methods).1.map Method.placeless ∧
      (Method.assignIds path d.methods).2.map Diagnostic.placeless =
        (Method.assignIds path d'.methods).2.map Diagnostic.placeless := by
    unfold Method.assignIds
    cases h : Method.idProblem? path [] false d.methods with
    | none =>
      rw [h] at problem
      rw [Option.map_eq_none_iff.1 problem.symm]
      exact ⟨by rw [Method.placeless_numbered, methods, Method.placeless_numbered], rfl⟩
    | some note =>
      rw [h] at problem
      obtain ⟨note', h', equal⟩ := Option.map_eq_some_iff.1 problem.symm
      rw [h']
      exact ⟨methods, congrArg some equal.symm⟩
  unfold numberMethods
  have notes : (Method.assignIds path d.methods).2.toList.map Diagnostic.placeless =
      (Method.assignIds path d'.methods).2.toList.map Diagnostic.placeless := by
    rw [← Option.toList_map, assigned.2, Option.toList_map]
  refine (refuse_alike alike _ notes).bind fun _ _ _ _ _ alike => .ok ?_ alike
  rw [Declaration.placeless_withMethods, Declaration.placeless_withMethods, same]
  exact congrArg _ assigned.1

end

end Load

open Load in
/-- Whatever was reported before in either context. -/
theorem loadUnit_alike {s s' : FileStore} {o o' : Options} (sources : SourcesAlike s s' o o')
    {base other : Reporter} {c c' : Context} (alike : c.Alike base other c') (path : String) :
    EndsAlike base other (fun u u' => u.placeless = u'.placeless)
      (loadUnit s.provider o path c) (loadUnit s'.provider o' path c') := by
  unfold loadUnit
  refine (preprocessedFiles_alike sources alike).bind fun _ _ c c' _ alike => ?_
  refine (parse_alike sources alike path).bind fun build build' c c' builds alike => ?_
  have types : build.types.map Declaration.placeless = build'.types.map Declaration.placeless := by
    rw [← FileBuild.placeless_types, builds.same, FileBuild.placeless_types]
  refine (onlyDeclaration_alike alike path types).bind fun d d' c c' written alike => ?_
  rw [← FileBuild.placeless_packageName build, builds.same, FileBuild.placeless_packageName]
  refine (checkPlacement_alike alike path _ written).bind fun _ _ c c' _ alike => ?_
  refine (closure_alike sources alike path builds).bind fun document document' c c' same alike => ?_
  refine (release_alike alike path same).bind fun d d' c c' resolved alike => ?_
  rw [get_bind, get_bind, alike.registry]
  have types : (d.checkTypes c'.registry).placeless = (d'.checkTypes c'.registry).placeless := by
    rw [← Declaration.placeless_checkTypes, resolved, Declaration.placeless_checkTypes]
  refine (verdict_alike alike _ types).bind fun _ _ c c' _ alike => ?_
  refine (checkStructured_alike alike sources.structured d d').bind fun _ _ c c' _ alike => ?_
  refine (numberMethods_alike alike path resolved).bind fun n n' c c' numbered alike => ?_
  have constants : n.checkConstants.placeless = n'.checkConstants.placeless := by
    rw [← Declaration.placeless_checkConstants, numbered, Declaration.placeless_checkConstants]
  refine (verdict_alike alike _ constants).bind fun _ _ c c' _ alike => .ok ?_ alike
  obtain ⟨types, imports⟩ := document
  obtain ⟨types', imports'⟩ := document'
  rw [LoadedDocument.placeless_mk, LoadedDocument.placeless_mk] at same
  unfold LoadedUnit.placeless
  exact congr (congrArg LoadedUnit.mk numbered) (LoadedDocument.mk.inj same).2

/-! ## One file replaced -/

/-- Two loads that differ in places and comments only. -/
inductive SameButPlaces : EStateM.Result LoadError Context LoadedUnit →
    EStateM.Result LoadError Context LoadedUnit → Prop
  | ok {u v : LoadedUnit} {c d : Context} (units : u.placeless = v.placeless)
    (messages : c.log.map Diagnostic.message = d.log.map Diagnostic.message) :
    SameButPlaces (.ok u c) (.ok v d)
  | error {e : LoadError} {c d : Context}
    (messages : c.log.map Diagnostic.message = d.log.map Diagnostic.message) :
    SameButPlaces (.error e c) (.error e d)

theorem Context.Alike.messages {c d : Context} (alike : c.Alike .empty .empty d) :
    c.log.map Diagnostic.message = d.log.map Diagnostic.message := by
  obtain ⟨notes, more, first, second, same⟩ := alike.reporter
  have logs (notes : List Diagnostic) : (Reporter.empty.emitAll notes).diagnostics = notes := by
    rw [Reporter.diagnostics_emitAll]
    rfl
  unfold log
  rw [first, second, logs, logs]
  exact Diagnostic.messages_of_placeless same

/-- Loading never ends with a fault of the program, so the errors are the same. -/
theorem loadUnit_sameErrors {s s' : FileStore} {o o' : Options} (sources : SourcesAlike s s' o o')
    {base other : Reporter} {c c' : Context} (alike : c.Alike base other c')
    (named : c.registry.Named) (path : String) :
    Ends Eq (Context.Alike base other) (fun u u' => u.placeless = u'.placeless)
      (loadUnit s.provider o path c) (loadUnit s'.provider o' path c') := by
  have ends := loadUnit_alike sources alike path
  have honest := loadUnit_honest named s.provider o path
  have honest' := loadUnit_honest (alike.registry ▸ named) s'.provider o' path
  generalize loadUnit s.provider o path c = first at ends honest
  generalize loadUnit s'.provider o' path c' = second at ends honest'
  cases ends with
  | ok units contexts => exact .ok units contexts
  | error same contexts =>
    cases honest with
    | error _ _ _ mild =>
      cases honest' with
      | error _ _ _ mild' =>
        rw [LoadError.placeless_of_mild mild, LoadError.placeless_of_mild mild'] at same
        exact .error same contexts

theorem loadUnit_sameButPlaces {s s' : FileStore} {o o' : Options}
    (sources : SourcesAlike s s' o o') (path : String) :
    SameButPlaces (loadUnit s.provider o path .empty) (loadUnit s'.provider o' path .empty) := by
  have start : Context.empty.Alike .empty .empty .empty := ⟨rfl, [], [], rfl, rfl, rfl⟩
  have ends := loadUnit_sameErrors sources start Registry.empty_named path
  generalize loadUnit s.provider o path .empty = first at ends
  generalize loadUnit s'.provider o' path .empty = second at ends
  cases ends with
  | ok units contexts => exact .ok units contexts.messages
  | error same contexts => exact same ▸ .error contexts.messages

/-- A store and the same store with one file replaced, if both texts have the same tokens and the
file is not read as a preprocessed one. -/
theorem SourcesAlike.insert {s : FileStore} {o : Options} {path text text' : String}
    (stored : s.find? path = some text)
    (unlisted : ∀ p ∈ o.preprocessedFiles, Path.normalForm p ≠ Path.normalForm path)
    (alike : ∀ file, SourceFile.placelessOf file text = SourceFile.placelessOf file text') :
    SourcesAlike s (s.insert path text') o o := by
  have apart {p : String} (other : Path.normalForm p ≠ Path.normalForm path) :
      s.read p = (s.insert path text').read p := by
    unfold FileStore.read
    rw [FileStore.find?_insert, if_neg other]
  have reads (p : String) : ReadsAlike p (s.read p) ((s.insert path text').read p) := by
    by_cases same : Path.normalForm p = Path.normalForm path
    · have own : s.find? p = some text := by
        unfold FileStore.find? at stored ⊢
        rwa [same]
      unfold FileStore.read
      rw [own, FileStore.find?_insert, if_pos same]
      exact .ok (alike p)
    · rw [← apart same]
      exact .refl p _
  refine ⟨reads, rfl, fun p listed => apart (unlisted p listed), rfl, fun _ _ _ i _ => ?_⟩
  have isFile : s.provider.isFile = (s.insert path text').provider.isFile :=
    funext fun p => (reads p).contains
  unfold LeadsAlike ImportSearch.file?
  rw [isFile]

/-- Lists of lexemes with the same tokens are read as the same file up to places and comments, with
the same messages. If therefore a file of a store that is no preprocessed one is replaced by a text
in which scanning finds the same tokens and no mistake either, every unit is loaded as before, up to
places and comments: the same unit or the same error, and the same messages in the same order. -/
theorem places_never_matter :
    (∀ ls ms : List Lexeme, SameTokens ls ms →
      (SourceFile.ofLexemes ls).1.placeless = (SourceFile.ofLexemes ms).1.placeless ∧
        (SourceFile.ofLexemes ls).2.map Diagnostic.message =
          (SourceFile.ofLexemes ms).2.map Diagnostic.message) ∧
      ∀ (s : FileStore) (o : Options) (input path text text' : String),
        s.find? path = some text →
        (∀ p ∈ o.preprocessedFiles, Path.normalForm p ≠ Path.normalForm path) →
        (Lexeme.ofText path text).2 = [] → (Lexeme.ofText path text').2 = [] →
        SameTokens (Lexeme.ofText path text).1 (Lexeme.ofText path text').1 →
        SameButPlaces (loadUnit s.provider o input .empty)
          (loadUnit (s.insert path text').provider o input .empty) := by
  constructor
  · intro ls ms tokens
    have read := Grammar.ofLexemes_placeless ls
    rw [tokens.placeless, Grammar.ofLexemes_placeless] at read
    exact ⟨(congrArg Prod.fst read).symm,
      Diagnostic.messages_of_placeless (congrArg Prod.snd read).symm⟩
  · intro s o input path text text' stored unlisted silent silent' tokens
    exact loadUnit_sameButPlaces
      (.insert stored unlisted (SourceFile.placelessOf_congr silent silent' tokens)) input

/-- A oneway method that returns something of another file. -/
def onewayAndData : FileStore :=
  (FileStore.empty.insert "I.aidl" "import a.B; oneway interface I \x7b B f(in B b); \x7d").insert
    "a/B.aidl" "package a; parcelable B \x7b int x; \x7d"

/-- The other file, written differently. -/
def spreadOut : String :=
  "// data\npackage a;\n\nparcelable B \x7b\n  /* the only field */ int x;\n\x7d\n"

theorem spreadOut_sameButPlaces :
    onewayAndData.find? "./a/B.aidl" = some "package a; parcelable B \x7b int x; \x7d" ∧
      SameTokens (Lexeme.ofText "./a/B.aidl" "package a; parcelable B \x7b int x; \x7d").1
        (Lexeme.ofText "./a/B.aidl" spreadOut).1 ∧
      SameButPlaces (loadUnit onewayAndData.provider searchHere "I.aidl" .empty)
        (loadUnit (onewayAndData.insert "./a/B.aidl" spreadOut).provider searchHere "I.aidl"
          .empty) := by
  have stored : onewayAndData.find? "./a/B.aidl" =
      some "package a; parcelable B \x7b int x; \x7d" := by decide +kernel
  have tokens : SameTokens
      (Lexeme.ofText "./a/B.aidl" "package a; parcelable B \x7b int x; \x7d").1
      (Lexeme.ofText "./a/B.aidl" spreadOut).1 := by
    unfold SameTokens
    decide +kernel
  refine ⟨stored, tokens, ?_⟩
  exact places_never_matter.2 _ _ _ _ _ _ stored (by simp [searchHere, Options.empty])
    (by decide +kernel) (by decide +kernel) tokens

end IdlFrontEnd
