import IdlFrontEnd.Build
import IdlFrontEnd.Unit.Loaded
import IdlFrontEnd.Unit.Placement

/-!
# Following imports

Starting from one file, every import of every file that is reached is followed once, in the order
in which the files were reached. A class the registry knows is not searched. A file is opened at
most once, whatever the number of paths and classes that lead to it. Every import that leads to no
file, to a broken one or to one that does not declare its class is reported before the walk fails.
-/
namespace IdlFrontEnd.ImportWalk

/-- What an import leads to: the file, if it is known, and the number of the stop at which that file
was opened for this import. -/
structure Link where
  file : Option String
  target : Option Nat
  deriving DecidableEq, Repr

/-- A file whose imports were followed, with one link for each. -/
structure Stop where
  path : String
  build : FileBuild
  links : List Link

/-- A file that was opened and whose imports wait to be followed. -/
structure Pending where
  path : String
  build : FileBuild

structure Walk where
  context : Context
  /-- The file that declares a type, for types of files that imports lead to. -/
  classFiles : List (String × String)
  visited : List (List Path.Component)
  broken : List (List Path.Component)
  clean : Bool
  pending : List Pending
  /-- How many files were opened without a mistake. -/
  opened : Nat

/-- What stands for a file whichever way it is reached. -/
def identity (provider : SourceProvider) (path : String) : List Path.Component :=
  Path.components ((provider.canonical? path).getD path)

namespace Walk

def start (provider : SourceProvider) (path : String) (build : FileBuild) (c : Context) : Walk :=
  ⟨c, [], [identity provider path], [], true, [⟨path, build⟩], 1⟩

/-- A problem is reported and fails the walk in the end. -/
def fail (w : Walk) (notes : List Diagnostic) : Walk :=
  { w with context := w.context.report notes, clean := false }

/-- Adds a file that was opened for an import. The types it declares must be meant to be declared
in it. -/
def add (w : Walk) (path : String) (build : FileBuild) : Walk :=
  let notes := build.types.flatMap (·.placementNotes path)
  { w with
    context := w.context.report notes
    clean := w.clean && notes.isEmpty
    classFiles := build.types.map (fun d => (d.canonical, path)) ++ w.classFiles
    pending := w.pending ++ [⟨path, build⟩]
    opened := w.opened + 1 }

end Walk

/-- A step of the walk. Only a request out of turn ends the walk at once. -/
abbrev Walking := EStateM Fatal Walk

/-- Opens a file for the first time. -/
def openFor (provider : SourceProvider) (i : ImportStatement) (path : String) : Walking Link :=
  fun w =>
    let key := identity provider path
    let (result, build, context) := FileBuild.fresh.parse w.context provider path
    let next := { w with context, visited := key :: w.visited }
    match result with
    | .ok () => .ok ⟨some path, some w.opened⟩ (next.add path build)
    | .error (.fatal f) => .error f next
    | .error _ =>
      .ok ⟨some path, none⟩ <|
        { next with broken := key :: next.broken }.fail
          [.atPlace i.location (.importFailed path i.className)]

def follow (provider : SourceProvider) (options : Options) (i : ImportStatement) : Walking Link :=
  fun w =>
    match w.context.registry.lookup? i.className with
    | some known => .ok ⟨w.classFiles.lookup known.canonical, none⟩ w
    | none =>
      match ImportSearch.file? provider options i.className with
      | none => .ok ⟨none, none⟩ (w.fail [.atPlace i.location (.importNotFound i.className)])
      | some path =>
        let key := identity provider path
        if key ∈ w.visited then
          .ok ⟨some path, none⟩ <| w.fail <|
            if key ∈ w.broken then []
            else [.atPlace i.location (.importDoesNotDeclare path i.className)]
        else openFor provider i path w

def followAll (provider : SourceProvider) (options : Options) :
    List ImportStatement → Walking (List Link)
  | [] => return []
  | i :: is => do
    let link ← follow provider options i
    return link :: (← followAll provider options is)

/-- Follows the imports of up to `count` pending files and of the files these lead to. -/
def run (provider : SourceProvider) (options : Options) : Nat → Walking (List Stop)
  | 0 => return []
  | count + 1 => do
    match (← get).pending with
    | [] => return []
    | first :: pending =>
      modify fun w => { w with pending }
      let links ← followAll provider options first.build.imports
      let stops ← run provider options count
      return ⟨first.path, first.build, links⟩ :: stops

/-- The stops of the walk from one file, that file first, and the state at the end. Only the first
file and files that can be read are ever pending. -/
def ofFile (provider : SourceProvider) (options : Options) (path : String) (build : FileBuild)
    (c : Context) : EStateM.Result Fatal Walk (List Stop) :=
  run provider options (provider.limit + 1) (.start provider path build c)

/-- An import with the document that its link leads to, among the documents of the stops from number
`first` on. -/
def Link.joined (link : Link) (first : Nat) (documents : List (Option LoadedDocument))
    (statement : ImportStatement) : LoadedImport :=
  ⟨statement, link.file, link.target.bind fun n => documents[n - first]?.join⟩

/-- The documents of the stops from number `first` on, each taken from its build and joined to those
its imports lead to. A link leads to a later stop. -/
def documents (first : Nat) : List Stop → List (Option LoadedDocument)
  | [] => []
  | stop :: stops =>
    let later := documents (first + 1) stops
    let joined := stop.build.takeDocument.1.map fun d =>
      ⟨d.types, (d.imports.zip stop.links).map fun pair => pair.2.joined (first + 1) later pair.1⟩
    joined :: later

end IdlFrontEnd.ImportWalk
