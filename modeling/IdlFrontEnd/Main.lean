import IdlFrontEnd.CommandLine.Outcome

/-!
# The program

Takes the files below the working directory, runs the command line on them, prints what it gives
and writes the files that changed. Only plain files and folders are taken; what files elsewhere hold
is not there for the program.
-/
namespace IdlFrontEnd.Program

/-- Adds the entries of the folder that `names` lead to, with all that is below them. -/
partial def addEntries (names : List String) (tree : FileTree)
    (entries : Array IO.FS.DirEntry) : IO FileTree :=
  entries.foldlM (fun tree entry => do
    let here := names ++ [entry.fileName]
    match (← entry.path.symlinkMetadata).type with
    | .dir =>
      addEntries here { tree with folders := tree.folders ++ [here] } (← entry.path.readDir)
    | .file => return tree.withFile here (← IO.FS.readBinFile entry.path)
    | _ => return tree) tree

def workingTree : IO FileTree := do
  addEntries [] .empty (← (← IO.currentDir).readDir)

def save (before after : FileTree) : IO Unit := do
  (before.newFolders after).forM fun names => IO.FS.createDirAll (FileTree.pathTo names)
  (before.changes after).forM fun (names, bytes) =>
    IO.FS.writeBinFile (FileTree.pathTo names) bytes

end IdlFrontEnd.Program

open IdlFrontEnd in
def main (words : List String) : IO UInt32 := do
  let before ← Program.workingTree
  let outcome := CommandLine.run words before
  IO.print outcome.output
  IO.eprint outcome.errors
  Program.save before outcome.tree
  return outcome.status.toUInt32
