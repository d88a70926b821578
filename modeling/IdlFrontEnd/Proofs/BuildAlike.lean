import IdlFrontEnd.Proofs.Build
import IdlFrontEnd.Proofs.Grammar.Forgetting

/-!
# Files that are alike up to places

Two files are alike if they are read as the same declarations with the same reports, up to places and
comments. Opening two such files with the same types known fills the registry alike, and so does
resolving them: the builds, the results and the reports are alike again, whatever was reported
before.
-/
namespace IdlFrontEnd

/-! ## Scanning -/

/-- In which file and from where on pieces are laid out shows in places only. -/
theorem Lexeme.place_placeless (file other : String) (point start : Point)
    (comments before : String) (pieces : List Piece) :
    (place file point comments pieces).1.map token = (place other start before pieces).1.map token ∧
      (place file point comments pieces).2.map Diagnostic.placeless =
        (place other start before pieces).2.map Diagnostic.placeless := by
  induction pieces generalizing point start comments before with
  | nil => exact ⟨rfl, rfl⟩
  | cons piece pieces ih =>
    unfold place
    cases piece.kind with
    | blank => exact ih ..
    | lineComment => exact ih ..
    | blockComment => exact ih ..
    | openComment => exact ⟨rfl, rfl⟩
    | openString => exact ⟨rfl, rfl⟩
    | stray c =>
      obtain ⟨tokens, notes⟩ := ih (point.afterAll piece.text) (start.afterAll piece.text) comments
        before
      exact ⟨tokens, congrArg (List.cons _) notes⟩
    | token t =>
      obtain ⟨tokens, notes⟩ := ih (point.afterAll piece.text) (start.afterAll piece.text) "" ""
      exact ⟨congrArg (List.cons t) tokens, notes⟩

namespace Grammar

/-- What is read of a text, without places and comments. -/
def SourceFile.placelessOf (path text : String) : SourceFile × List Diagnostic :=
  ((ofText path text).1.placeless, (ofText path text).2.map Diagnostic.placeless)

theorem SourceFile.placelessOf_eq (path text : String) :
    placelessOf path text =
      ((ofLexemes ((Lexeme.ofText path text).1.map Lexeme.placeless)).1,
        (Lexeme.ofText path text).2.map Diagnostic.placeless ++
          (ofLexemes ((Lexeme.ofText path text).1.map Lexeme.placeless)).2) := by
  rw [ofLexemes_placeless]
  exact congrArg (Prod.mk _) (List.map_append ..)

/-- Two texts in which scanning finds the same tokens and nothing to report are read alike, in
whichever file. -/
theorem SourceFile.placelessOf_congr {path text text' : String}
    (silent : (Lexeme.ofText path text).2 = []) (silent' : (Lexeme.ofText path text').2 = [])
    (tokens : SameTokens (Lexeme.ofText path text).1 (Lexeme.ofText path text').1)
    (file : String) : placelessOf file text = placelessOf file text' := by
  have moved (t : String) := Lexeme.place_placeless file path ⟨1, 1⟩ ⟨1, 1⟩ "" ""
    (Piece.split t.toList)
  have same : SameTokens (Lexeme.ofText file text).1 (Lexeme.ofText file text').1 :=
    (moved text).1.trans (tokens.trans (moved text').1.symm)
  have notes : (Lexeme.ofText file text).2.map Diagnostic.placeless =
      (Lexeme.ofText file text').2.map Diagnostic.placeless := by
    have first : (Lexeme.ofText file text).2.map Diagnostic.placeless = _ := (moved text).2
    have second : (Lexeme.ofText file text').2.map Diagnostic.placeless = _ := (moved text').2
    rw [first, second]
    exact congrArg (List.map Diagnostic.placeless) (silent.trans silent'.symm)
  rw [placelessOf_eq, placelessOf_eq, same.placeless, notes]

end Grammar

/-! ## Types in the registry -/

theorem Registry.declare_placeless (g : Registry) (ds : List Declaration) :
    g.declare (ds.map Declaration.placeless) =
      ((g.declare ds).1, (g.declare ds).2.map Diagnostic.placeless) := by
  induction ds generalizing g with
  | nil => rfl
  | cons d ds ih =>
    rw [List.map_cons, declare, declare, Declaration.placeless_ofDeclaration]
    cases g.addDefined? (.ofDeclaration d) with
    | some next => exact ih next
    | none =>
      dsimp only
      rw [ih]
      rfl

/-! ## Documents -/

namespace Document

def placeless (d : Document) : Document :=
  ⟨d.types.map Declaration.placeless, d.imports.map ImportStatement.placeless⟩

theorem placeless_names (d : Document) (g : Registry) : d.placeless.names g = d.names g := by
  simp [names, placeless, ImportStatement.placeless, Function.comp_def]

theorem placeless_typeExprs (d : Document) :
    d.placeless.typeExprs = d.typeExprs.map TypeExpr.placeless := by
  simp [typeExprs, placeless, List.map_flatMap, List.flatMap_map, Declaration.placeless_types]

theorem placeless_unresolvedNotes (d : Document) (g : Registry) :
    d.placeless.unresolvedNotes g = (d.unresolvedNotes g).map Diagnostic.placeless := by
  have known (t : TypeExpr) (find : String → Option String) :
      t.placeless.isKnown find = t.isKnown find := by
    simp [TypeExpr.isKnown, Function.comp_def, TypeHead.placeless]
  unfold unresolvedNotes
  rw [placeless_names, placeless_typeExprs, List.flatMap_map, List.map_flatMap]
  congr 1
  funext t
  rw [known]
  split
  · rfl
  · rw [← TypeExpr.placeless_resolve]
    simp [TypeExpr.unresolvedParts, List.filter_map, Function.comp_def, TypeHead.placeless]

theorem placeless_resolve (d : Document) (g : Registry) :
    d.placeless.resolve g = (d.resolve g).placeless := by
  unfold resolve
  rw [placeless_names]
  simp [mapTypes, placeless, Function.comp_def, Declaration.placeless_resolve]

end Document

/-! ## Contexts -/

/-- The registries are the same, and what was reported on top of two logs is alike. -/
structure Context.Alike (base other : Reporter) (c d : Context) : Prop where
  registry : c.registry = d.registry
  reporter : ∃ notes more, c.reporter = base.emitAll notes ∧ d.reporter = other.emitAll more ∧
    notes.map Diagnostic.placeless = more.map Diagnostic.placeless

namespace Context.Alike

variable {base other : Reporter} {c d : Context}

theorem report (alike : Alike base other c d) {notes more : List Diagnostic}
    (same : notes.map Diagnostic.placeless = more.map Diagnostic.placeless) :
    Alike base other (c.report notes) (d.report more) := by
  obtain ⟨before, before', first, second, told⟩ := alike.reporter
  refine ⟨alike.registry, before ++ notes, before' ++ more, ?_, ?_, ?_⟩
  · exact (congrArg (·.emitAll notes) first).trans (Reporter.emitAll_append ..).symm
  · exact (congrArg (·.emitAll more) second).trans (Reporter.emitAll_append ..).symm
  · rw [List.map_append, List.map_append, told, same]

theorem withRegistry (alike : Alike base other c d) {g h : Registry} (same : g = h) :
    Alike base other { c with registry := g } { d with registry := h } :=
  ⟨same, alike.reporter⟩

end Context.Alike

/-! ## Opening files -/

/-- Two attempts to read a file fail alike, or give texts that are read alike. -/
inductive ReadsAlike (path : String) : Except FileError String → Except FileError String → Prop
  | error (e : FileError) : ReadsAlike path (.error e) (.error e)
  | ok {text text' : String}
    (same : Grammar.SourceFile.placelessOf path text = Grammar.SourceFile.placelessOf path text') :
    ReadsAlike path (.ok text) (.ok text')

theorem ReadsAlike.refl (path : String) (read : Except FileError String) :
    ReadsAlike path read read := by
  cases read with
  | error e => exact .error e
  | ok text => exact .ok rfl

def Opened.placeless : Opened → Opened
  | .built file redefined => .built file.placeless redefined
  | other => other

namespace FileBuild

def placeless (b : FileBuild) : FileBuild :=
  { b with
    package := b.package.map QualifiedName.placeless
    document := b.document.map Document.placeless }

theorem placeless_types (b : FileBuild) :
    b.placeless.types = b.types.map Declaration.placeless := by
  obtain ⟨file, package, document, phase, deferred⟩ := b
  cases document <;> rfl

theorem placeless_imports (b : FileBuild) :
    b.placeless.imports = b.imports.map ImportStatement.placeless := by
  obtain ⟨file, package, document, phase, deferred⟩ := b
  cases document <;> rfl

theorem placeless_packageName (b : FileBuild) : b.placeless.packageName = b.packageName := by
  obtain ⟨file, package, document, phase, deferred⟩ := b
  cases package <;> rfl

theorem placeless_openedAs (b : FileBuild) (path : String) (opened : Opened) :
    b.placeless.openedAs path opened.placeless = (b.openedAs path opened).placeless := by
  cases opened with
  | built file redefined =>
    have count : (file.document.placeless).typeExprs.length = file.document.typeExprs.length := by
      rw [Document.placeless_typeExprs, List.length_map]
    simp only [openedAs, Opened.placeless, Opened.file?, placeless, Opened.phase, ← count]
    rfl
  | unreadable | rejected => rfl

end FileBuild

section
variable {base other : Reporter} {c d : Context} {provider provider' : SourceProvider}
  {path : String}

theorem Context.Alike.openFile (alike : Alike base other c d)
    (reads : ReadsAlike path (provider.read path) (provider'.read path)) :
    (c.openFile provider path).1.placeless = (d.openFile provider' path).1.placeless ∧
      Alike base other (c.openFile provider path).2 (d.openFile provider' path).2 := by
  unfold Context.openFile
  generalize provider.read path = read, provider'.read path = read' at reads
  cases reads with
  | error e => exact ⟨rfl, alike.report rfl⟩
  | @ok text text' same =>
    have file : (Grammar.SourceFile.ofText path text).1.placeless =
        (Grammar.SourceFile.ofText path text').1.placeless := congrArg Prod.fst same
    have notes : (Grammar.SourceFile.ofText path text).2.map Diagnostic.placeless =
        (Grammar.SourceFile.ofText path text').2.map Diagnostic.placeless := congrArg Prod.snd same
    have count := congrArg List.length notes
    rw [List.length_map, List.length_map] at count
    dsimp only
    simp only [Context.report, Reporter.errors_emitAll, Nat.add_sub_cancel_left]
    rw [count]
    split
    · exact ⟨rfl, alike.report notes⟩
    · have declared : c.registry.declare
          ((Grammar.SourceFile.ofText path text).1.types.map Declaration.placeless) =
          d.registry.declare
            ((Grammar.SourceFile.ofText path text').1.types.map Declaration.placeless) := by
        rw [alike.registry]
        exact congrArg (d.registry.declare ·.types) file
      rw [Registry.declare_placeless, Registry.declare_placeless] at declared
      have registry := congrArg Prod.fst declared
      have redefined := congrArg Prod.snd declared
      have length := congrArg List.length redefined
      rw [List.length_map, List.length_map] at length
      refine ⟨?_, ((alike.report notes).withRegistry registry).report redefined⟩
      exact (congr (congrArg Opened.built file) length :)

/-- Opening alike files gives the same result and builds that are alike. -/
theorem FileBuild.parse_alike (alike : c.Alike base other d)
    (reads : ReadsAlike path (provider.read path) (provider'.read path)) :
    (fresh.parse c provider path).1 = (fresh.parse d provider' path).1 ∧
      (fresh.parse c provider path).2.1.placeless = (fresh.parse d provider' path).2.1.placeless ∧
      (fresh.parse c provider path).2.2.Alike base other (fresh.parse d provider' path).2.2 := by
  obtain ⟨opened, next⟩ := alike.openFile reads
  have outcome (o : Opened) :
      ((o.placeless.result path).map fun _ => ()) = (o.result path).map fun _ => () := by
    cases o with
    | built file redefined => cases redefined <;> rfl
    | unreadable | rejected => rfl
  unfold parse
  rw [if_neg (by simp [fresh]), if_neg (by simp [fresh])]
  refine ⟨?_, ?_, next⟩
  · have same := congrArg (fun o => (o.result path).map fun _ => ()) opened
    exact (outcome _).symm.trans (same.trans (outcome _))
  · have whole (o : Opened) : (fresh.openedAs path o).placeless =
        fresh.openedAs path o.placeless := (placeless_openedAs fresh path o).symm
    exact (whole _).trans ((congrArg (fresh.openedAs path) opened).trans (whole _).symm)

end

/-! ## Resolving files -/

/-- Builds that are alike are resolved alike. -/
theorem FileBuild.resolve_alike {base other : Reporter} {c d : Context} {b b' : FileBuild}
    (alike : c.Alike base other d) (same : b.placeless = b'.placeless) :
    (b.resolve c).1 = (b'.resolve d).1 ∧
      (b.resolve c).2.1.placeless = (b'.resolve d).2.1.placeless ∧
      (b.resolve c).2.2.Alike base other (b'.resolve d).2.2 := by
  have phase : b.phase = b'.phase := (congrArg FileBuild.phase same :)
  have file : b.file = b'.file := (congrArg FileBuild.file same :)
  have document : b.document.map Document.placeless = b'.document.map Document.placeless :=
    (congrArg FileBuild.document same :)
  have notes : ((b.document.map (·.unresolvedNotes c.registry)).getD []).map Diagnostic.placeless =
      ((b'.document.map (·.unresolvedNotes d.registry)).getD []).map Diagnostic.placeless := by
    have own (o : Option Document) (g : Registry) :
        ((o.map (·.unresolvedNotes g)).getD []).map Diagnostic.placeless =
          ((o.map Document.placeless).map (·.unresolvedNotes g)).getD [] := by
      cases o with
      | none => rfl
      | some d => exact (d.placeless_unresolvedNotes g).symm
    rw [own, own, document, alike.registry]
  have resolved : (b.document.map (·.resolve c.registry)).map Document.placeless =
      (b'.document.map (·.resolve d.registry)).map Document.placeless := by
    have own (o : Option Document) (g : Registry) :
        (o.map (·.resolve g)).map Document.placeless =
          (o.map Document.placeless).map (·.resolve g) := by
      simp [Function.comp_def, Document.placeless_resolve]
    rw [own, own, document, alike.registry]
  have length := congrArg List.length notes
  rw [List.length_map, List.length_map] at length
  have empty : ((b.document.map (·.unresolvedNotes c.registry)).getD []).isEmpty =
      ((b'.document.map (·.unresolvedNotes d.registry)).getD []).isEmpty := by
    rw [← List.isEmpty_map (f := Diagnostic.placeless), notes, List.isEmpty_map]
  unfold resolve
  rw [phase]
  split
  · exact ⟨by rw [refuse, refuse, file], same, alike.report (by rw [file])⟩
  · refine ⟨?_, ?_, alike.report notes⟩
    · dsimp only
      rw [empty, length, file]
    · obtain ⟨_, package, _, _, _⟩ := b
      obtain ⟨_, package', _, _, _⟩ := b'
      have packages : package.map QualifiedName.placeless = package'.map QualifiedName.placeless :=
        (congrArg FileBuild.package same :)
      simp only [placeless] at resolved file ⊢
      rw [resolved, packages, file, length]

end IdlFrontEnd
