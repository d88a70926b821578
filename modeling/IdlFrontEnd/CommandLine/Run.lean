import IdlFrontEnd.CommandLine.Invocation
import IdlFrontEnd.Source.Tree
import IdlFrontEnd.Unit.Export
import IdlFrontEnd.Unit.Listing

/-!
# Running an invocation

An invocation is run on a tree of files and gives an exit status, the text on both outputs, the
diagnostics that were recorded and the files afterwards. The status is 0 for a command that did its
work and 1 for one that failed. Only the commands with an output file change a file, and they write
it after everything else has succeeded.

How the words of a command line and the text of a settings file are read is up to libraries that the
program uses. Here both readers are parameters: what a run comes to is said for all of them.
-/
namespace IdlFrontEnd.CommandLine

structure Outcome where
  status : Nat
  output : String
  errors : String
  log : List Diagnostic
  tree : FileTree

namespace Invocation

/-- A failure of a command's surroundings, on one line. A quiet command says nothing. -/
def complaint (i : Invocation) (message : String) : String :=
  if i.quiet then ""
  else match i.format with
    | .text => message ++ "\n"
    | .json => (Json.object [("error", .string message)]).compact ++ "\n"

/-- The diagnostics as they are found. Only text output that is not quiet has them. -/
def echo (i : Invocation) (log : List Diagnostic) : String :=
  if i.format = .text ∧ ¬ i.quiet then String.join (log.map (·.line ++ "\n")) else ""

/-- A failure to load, with all diagnostics. -/
def failure (i : Invocation) (error : LoadError) (log : List Diagnostic) (tree : FileTree) :
    Outcome :=
  let report := match i.format with
    | .text => i.complaint ("aidl: " ++ error.message)
    | .json =>
      (Json.object [("diagnostics", .list (log.map Diagnostic.json)),
        ("error", .string error.message)]).pretty ++ "\n"
  ⟨1, "", i.echo log ++ report, log, tree⟩

def success (i : Invocation) (output : String) (log : List Diagnostic) (tree : FileTree) :
    Outcome :=
  ⟨0, output, i.echo log, log, tree⟩

/-- The options of the settings file with those of the command line after them. -/
def allOptions (read : String → Except String Options) (i : Invocation) (tree : FileTree) :
    Except String Options := do
  match i.config with
  | none => return Options.empty.merge i.options
  | some path =>
    match tree.read path with
    | .error e => throw s!"could not read '{path}': {e.message}"
    | .ok text =>
      match read text with
      | .ok settings => return settings.merge i.options
      | .error message => throw s!"could not parse '{path}': {message}"

/-- Loads a file that is itself the last place to look for imports. -/
def loadFile (options : Options) (file : String) (tree : FileTree) : Load LoadedUnit :=
  loadUnit tree.provider { options with inputFiles := options.inputFiles ++ [file] } file

def check (i : Invocation) (options : Options) (file : String) (tree : FileTree) : Outcome :=
  match loadFile options file tree .empty with
  | .ok unit c =>
    let canonical := unit.declaration.canonical
    let output := match i.format with
      | .json =>
        (Json.object [("file", .string file), ("status", .string "ok"),
          ("type", .string canonical)]).pretty ++ "\n"
      | .text => if i.quiet then "" else s!"{file}: {canonical} ok\n"
    i.success output c.log tree
  | .error .foundParcelable c =>
    if options.failOnParcelable then i.failure .foundParcelable c.log tree
    else
      let said := ¬ i.quiet ∧ i.format = .text
      let output := if said then s!"{file}: only unstructured parcelables, skipped\n" else ""
      i.success output c.log tree
  | .error e c => i.failure e c.log tree

def exportUnit (i : Invocation) (options : Options) (file : String) (tree : FileTree) : Outcome :=
  match loadFile options file tree .empty with
  | .ok unit c =>
    match Export.unit unit.declaration unit.imports with
    | .ok json => i.success (json.pretty ++ "\n") c.log tree
    | .error f => i.failure (.fatal f) (c.report [f.diagnostic]).log tree
  | .error e c => i.failure e c.log tree

/-- The tree with the folder of an output file. -/
private def withFolderOf (path : String) (tree : FileTree) : Except String FileTree :=
  match (Path.parent? path).filter (¬ ·.isEmpty) with
  | none => .ok tree
  | some folder =>
    (tree.makeFolders folder).mapError fun e => s!"could not create '{folder}': {e.message}"

/-- The tree with this file, or what keeps it from being written. A folder that was made for the
file stays even so. -/
def writeFile (path text : String) (tree : FileTree) : Option String × FileTree :=
  match withFolderOf path tree with
  | .error message => (some message, tree)
  | .ok made =>
    match made.write path text with
    | .ok written => (none, written)
    | .error e => (some s!"could not write '{path}': {e.message}", made)

/-- What is shown on the two outputs when a file is written, which may be one of them. -/
private def shown (tree : FileTree) (path text : String) : String × String :=
  match tree.deviceAt? path with
  | some .output => (text, "")
  | some .errors => ("", text)
  | _ => ("", "")

/-- Puts out a listing, on the standard output if no file is named. -/
def list (i : Invocation) (listing : Load String) (out : Option String) (tree : FileTree) :
    Outcome :=
  match listing .empty, out with
  | .error e c, _ => i.failure e c.log tree
  | .ok text c, none => i.success text c.log tree
  | .ok text c, some path =>
    match writeFile path text tree with
    | (none, written) =>
      let (output, errors) := shown tree path text
      ⟨0, output, i.echo c.log ++ errors, c.log, written⟩
    | (some message, left) => ⟨1, "", i.echo c.log ++ i.complaint message, c.log, left⟩

/-- Runs the command on a tree of files. -/
def run (read : String → Except String Options) (i : Invocation) (tree : FileTree) : Outcome :=
  match i.allOptions read tree with
  | .error message => ⟨1, "", i.complaint message, [], tree⟩
  | .ok options =>
    let withInputs (files : List String) :=
      { options with inputFiles := options.inputFiles ++ files }
    match i.command with
    | .check file => i.check options file tree
    | .exportUnit file => i.exportUnit options file tree
    | .preprocess out files =>
      i.list (listPreprocessed tree.provider (withInputs files)) (some out) tree
    | .dumpApi files out => i.list (listApi tree.provider (withInputs files)) out tree

end Invocation

/-- What is put out for a command line that runs no command. -/
structure Refusal where
  status : Nat
  output : String
  errors : String
  deriving DecidableEq, Repr

/-- How a command line is read, and how the text of a settings file. -/
structure Readers where
  words : List String → Except Refusal Invocation
  settings : String → Except String Options

/-- Runs the program with these words on a tree of files. -/
def Readers.run (readers : Readers) (words : List String) (tree : FileTree) : Outcome :=
  match readers.words words with
  | .ok i => i.run readers.settings tree
  | .error refusal => ⟨refusal.status, refusal.output, refusal.errors, [], tree⟩

end IdlFrontEnd.CommandLine
