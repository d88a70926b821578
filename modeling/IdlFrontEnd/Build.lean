import IdlFrontEnd.Grammar.SourceFile
import IdlFrontEnd.Registry
import IdlFrontEnd.Source.Provider

/-!
# Building one file

The registry and the reporter of diagnostics are shared by all files that are loaded together. Opening a
file scans and reads it and then puts its types into the registry; a file with a mistake in it puts
none there. Its names are resolved later, when the registry knows all files. A build takes one file
through these phases in order and refuses any request out of turn.
-/
namespace IdlFrontEnd

structure Context where
  registry : Registry
  reporter : Reporter

namespace Context

def empty : Context := ⟨.empty, .empty⟩

def log (c : Context) : List Diagnostic := c.reporter.diagnostics

def report (c : Context) (notes : List Diagnostic) : Context :=
  { c with reporter := c.reporter.emitAll notes }

theorem report_nil (c : Context) : c.report [] = c := rfl

theorem report_append (c : Context) (notes more : List Diagnostic) :
    c.report (notes ++ more) = (c.report notes).report more := by
  unfold report
  rw [Reporter.emitAll_append]

end Context

inductive ParseFailure where
  | unreadable (file : String) (error : FileError)
  | malformed (file : String) (errors : Nat)
  | unresolved (file : String) (count : Nat)
  | fatal (f : Fatal)
  deriving DecidableEq, Repr

def ParseFailure.message : ParseFailure → String
  | .unreadable file error => s!"cannot read '{file}': " ++ error.message
  | .malformed file errors => s!"{file}: {errors} error(s) while parsing"
  | .unresolved file count => s!"{file}: {count} type reference(s) could not be resolved"
  | .fatal f => f.message

/-- Adds the types of a file in order. Each one whose canonical name is taken is reported and left
out. -/
def Registry.declare (g : Registry) : List Declaration → Registry × List Diagnostic
  | [] => (g, [])
  | d :: ds =>
    match g.addDefined? (.ofDeclaration d) with
    | some next => next.declare ds
    | none =>
      let (last, notes) := g.declare ds
      (last, .atPlace d.location (.redefinedType d.canonical) :: notes)

/-- What came of opening a file. -/
inductive Opened where
  | unreadable (error : FileError) | rejected (errors : Nat)
  | built (file : Grammar.SourceFile) (redefined : Nat)

namespace Opened

/-- A file counts as opened only if none of its types was known before. -/
def result (path : String) : Opened → Except ParseFailure Grammar.SourceFile
  | .unreadable error => .error (.unreadable path error)
  | .rejected errors => .error (.malformed path errors)
  | .built file 0 => .ok file
  | .built _ redefined => .error (.malformed path redefined)

def phase : Opened → Phase
  | .unreadable _ => .scanning
  | .rejected _ => .building
  | .built .. => .deferredRegistration

def file? : Opened → Option Grammar.SourceFile
  | .built file _ => some file
  | _ => none

end Opened

/-- Reads a text as a source file. -/
def Grammar.SourceFile.ofText (path text : String) : Grammar.SourceFile × List Diagnostic :=
  let (lexemes, stray) := Lexeme.ofText path text
  let (file, rejected) := ofLexemes lexemes
  (file, stray ++ rejected)

def Context.openFile (c : Context) (provider : SourceProvider) (path : String) :
    Opened × Context :=
  match provider.read path with
  | .error error => (.unreadable error, c.report [.atFile path (.unreadable error)])
  | .ok text =>
    let (file, notes) := Grammar.SourceFile.ofText path text
    let read := c.report notes
    let errors := read.reporter.errors - c.reporter.errors
    if errors > 0 then (.rejected errors, read)
    else
      let (registry, redefined) := read.registry.declare file.types
      (.built file redefined.length, { read with registry }.report redefined)

def Grammar.SourceFile.document (file : Grammar.SourceFile) : Document :=
  ⟨file.types, file.imports⟩

/-- The canonical names that the file of a document sees. -/
def Document.names (d : Document) (g : Registry) : String → Option String :=
  g.canonical? (d.imports.map ImportStatement.className)

def Document.resolve (d : Document) (g : Registry) : Document :=
  d.mapTypes (TypeExpr.resolve (d.names g))

/-- One diagnostic for each part that resolving leaves without a canonical name. -/
def Document.unresolvedNotes (d : Document) (g : Registry) : List Diagnostic :=
  d.typeExprs.flatMap fun t =>
    if t.isKnown (d.names g) then []
    else (t.resolve (d.names g)).unresolvedParts.map fun p =>
      .atPlace p.head.location (.unresolvedName p.head.written)

structure FileBuild where
  file : String
  package : Option QualifiedName
  document : Option Document
  phase : Phase
  /-- How many types wait to be resolved, or could not be. -/
  deferred : Nat

namespace FileBuild

def fresh : FileBuild := ⟨"", none, none, .ready, 0⟩

def packageName (b : FileBuild) : String := (b.package.map QualifiedName.dotName).getD ""

/-- The types of the file; none as long as there is no document. -/
def types (b : FileBuild) : List Declaration := (b.document.map Document.types).getD []

def imports (b : FileBuild) : List ImportStatement := (b.document.map Document.imports).getD []

/-- A request out of turn changes nothing but the reporter. -/
def refuse (b : FileBuild) (c : Context) (f : Fatal) :
    Except ParseFailure Unit × FileBuild × Context :=
  (.error (.fatal f), b, c.report [f.diagnostic])

/-- The build after a file was opened. -/
def openedAs (b : FileBuild) (path : String) (opened : Opened) : FileBuild :=
  let moved := { b with file := path, phase := opened.phase }
  match opened.file? with
  | some file =>
    { moved with
      package := file.package
      document := some file.document
      deferred := file.document.typeExprs.length }
  | none => moved

/-- Opens a file; for a build that has not opened one before. -/
def parse (b : FileBuild) (c : Context) (provider : SourceProvider) (path : String) :
    Except ParseFailure Unit × FileBuild × Context :=
  if b.phase ≠ .ready then b.refuse c ⟨.file path, .parsedOutOfTurn b.phase⟩
  else
    let (opened, next) := c.openFile provider path
    ((opened.result path).map fun _ => (), b.openedAs path opened, next)

/-- Resolves the names of the file against all types known by now; for a build that has opened its
file. -/
def resolve (b : FileBuild) (c : Context) : Except ParseFailure Unit × FileBuild × Context :=
  if b.phase ≠ .deferredRegistration then b.refuse c ⟨.file b.file, .resolvedOutOfTurn b.phase⟩
  else
    let notes := (b.document.map (·.unresolvedNotes c.registry)).getD []
    let result : FileBuild :=
      { b with
        document := b.document.map (·.resolve c.registry)
        phase := .done
        deferred := notes.length }
    (if notes.isEmpty then .ok () else .error (.unresolved b.file notes.length), result,
      c.report notes)

/-- Hands the document over; the build keeps none. -/
def takeDocument (b : FileBuild) : Option Document × FileBuild :=
  (b.document, { b with document := none })

end FileBuild

end IdlFrontEnd
