import IdlFrontEnd.Check.Constants
import IdlFrontEnd.Check.MethodIds
import IdlFrontEnd.Preprocessed
import IdlFrontEnd.Unit.ImportWalk

/-!
# Loading a unit

A unit is loaded from one input file: the preprocessed files are read, the input is opened and must
define exactly one type that is not an unstructured parcelable, in the right place; its imports are
followed, all names are resolved, and the type is checked and its methods numbered. What is wrong is
in the log, and the error names the step that failed. The types that were met stay in the registry
whether loading succeeds or not.
-/
namespace IdlFrontEnd

inductive LoadError where
  | badPreprocessedFile | parseError (cause : ParseFailure) | badImport | badType
  | foundParcelable | badPackage (package : String) | badMethodId | badConstants
  | fatal (f : Fatal)
  deriving DecidableEq, Repr

def LoadError.message : LoadError → String
  | .badPreprocessedFile => "malformed preprocessed file"
  | .parseError _ => "failed to parse input file"
  | .badImport => "couldn't load all imports"
  | .badType => "type error"
  | .foundParcelable => "refusing to generate code with unstructured parcelables"
  | .badPackage package => s!"invalid package declaration '{package}'"
  | .badMethodId => "invalid method ids"
  | .badConstants => "invalid constant declarations"
  | .fatal f => f.message

/-- Why the file of a build did not open. -/
def LoadError.ofParse : ParseFailure → LoadError
  | .fatal f => .fatal f
  | failure => .parseError failure

/-- A step of loading. What an error leaves behind in the context stays there. -/
abbrev Load := EStateM LoadError Context

namespace Load

def report (notes : List Diagnostic) : Load Unit :=
  modify fun c => c.report notes

def fail {α : Type} (error : LoadError) (notes : List Diagnostic) : Load α := do
  report notes
  throw error

/-- Ends loading with a fault of the program. -/
def fault {α : Type} (f : Fatal) : Load α := fail (.fatal f) [f.diagnostic]

/-- Fails if there is something to report. -/
def refuse (error : LoadError) (notes : List Diagnostic) : Load Unit :=
  if notes.isEmpty then pure () else fail error notes

def verdict (error : LoadError) (v : Verdict) : Load Unit := do
  report v.notes
  match v.result with
  | .ok true => pure ()
  | .ok false => throw error
  | .error f => throw (.fatal f)

def preprocessedFiles (provider : SourceProvider) (options : Options) : Load Unit := do
  let (ok, c) := Preprocessed.readAll provider options.preprocessedFiles (← get)
  set c
  if ok then pure () else throw .badPreprocessedFile

def parse (provider : SourceProvider) (path : String) : Load FileBuild := do
  let (result, build, c) := FileBuild.fresh.parse (← get) provider path
  set c
  match result with
  | .ok () => return build
  | .error failure => throw (.ofParse failure)

def isUnstructured (d : Declaration) : Bool := d.kind = .parcelable

/-- The one declaration of the input. -/
def onlyDeclaration (path : String) (types : List Declaration) : Load Declaration := do
  if types.isEmpty then fail .badType [.atFile path .nothingDefined]
  else if types.all isUnstructured then throw .foundParcelable
  else match types with
    | [d] => return d
    | _ => fail .badType [.atFile path .severalDefined]

def checkPlacement (path : String) (package : String) (d : Declaration) : Load Unit := do
  let notes := d.placementNotes path
  if notes.isEmpty then pure ()
  else fail (.badPackage package) (notes ++ [.atFile path (.badPackage package)])

/-- The input and all files that its imports lead to, none of them resolved yet. -/
def followImports (provider : SourceProvider) (options : Options) (path : String)
    (build : FileBuild) : Load (List ImportWalk.Stop) := fun c =>
  match ImportWalk.ofFile provider options path build c with
  | .error f walk => .error (.fatal f) walk.context
  | .ok stops walk =>
    if walk.clean then .ok stops walk.context else .error .badImport walk.context

/-- Resolves one file. A name that is not known fails loading only after all files were resolved. -/
def resolveStop (stop : ImportWalk.Stop) : Load (ImportWalk.Stop × Bool) := do
  let (result, build, c) := stop.build.resolve (← get)
  set c
  match result with
  | .ok () => return ({ stop with build }, true)
  | .error (.fatal f) => throw (.fatal f)
  | .error _ => return ({ stop with build }, false)

def resolveStops : List ImportWalk.Stop → Load (List (ImportWalk.Stop × Bool))
  | [] => return []
  | stop :: stops => do
    let first ← resolveStop stop
    return first :: (← resolveStops stops)

/-- The input joined to all that its imports lead to. Afterwards the registry knows every name in
these documents. -/
def closure (provider : SourceProvider) (options : Options) (path : String)
    (build : FileBuild) : Load LoadedDocument := do
  let stops ← followImports provider options path build
  let resolved ← resolveStops stops
  if ¬ resolved.all Prod.snd then throw .badType
  match (ImportWalk.documents 0 (resolved.map Prod.fst)).head?.join with
  | some document => return document
  | none => fault ⟨.file path, .documentVanished⟩

/-- Takes the only type out of a document. -/
def release (path : String) (document : LoadedDocument) : Load Declaration :=
  match document.types with
  | [d] => return d
  | _ => fault ⟨.file path, .notOneType⟩

/-- The options may refuse a unit for each parcelable without fields that is known. -/
def checkStructured (options : Options) (d : Declaration) : Load Unit := do
  let unstructured := (← get).registry.records.filter (·.kind = .parcelable)
  refuse .badType <|
    if options.structured then
      unstructured.map fun r => .atPlace d.location (.notStructured r.canonical)
    else []

def numberMethods (path : String) (d : Declaration) : Load Declaration := do
  let (methods, problem) := Method.assignIds path d.methods
  refuse .badMethodId problem.toList
  return d.withMethods methods

end Load

/-- Loads the unit of an input file. -/
def loadUnit (provider : SourceProvider) (options : Options) (path : String) :
    Load LoadedUnit := do
  Load.preprocessedFiles provider options
  let build ← Load.parse provider path
  let written ← Load.onlyDeclaration path build.types
  Load.checkPlacement path build.packageName written
  let document ← Load.closure provider options path build
  let resolved ← Load.release path document
  Load.verdict .badType (resolved.checkTypes (← get).registry)
  Load.checkStructured options resolved
  let numbered ← Load.numberMethods path resolved
  Load.verdict .badConstants numbered.checkConstants
  return ⟨numbered, document.imports⟩

end IdlFrontEnd
