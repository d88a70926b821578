import IdlFrontEnd.Path
import IdlFrontEnd.Source.Device
import IdlFrontEnd.Source.Provider

/-!
# Files and folders

A tree holds files and folders by the names that lead to them from the working directory. Names that
lead elsewhere start with `..`, once for each folder above the working directory, or with `/`, the
root; there a tree has the folders above, the usual folders below the root, its devices and what is
made in a run. A path is followed name by name: `.` stays, `..` goes up, a name must be there and,
unless it is the last one, must be a folder. A path that ends in a slash names a folder, so no file
is read or written by it. Names and paths have a limit on their length in bytes.
-/
namespace IdlFrontEnd

structure FileTree where
  files : List (List String × ByteArray)
  folders : List (List String)

namespace FileTree

/-- Where a path leads, and for a file or nothing whether the path names a folder. -/
inductive Spot where
  | folder (names : List String)
  | file (names : List String) (asFolder : Bool)
  | absent (names : List String) (asFolder : Bool)
  deriving DecidableEq, Repr

/-- A tree without files. -/
def empty : FileTree := ⟨[], []⟩

/-- The folders that every root has. -/
def rootFolders : List String :=
  ["bin", "dev", "etc", "home", "lib", "mnt", "opt", "proc", "root", "run", "sbin", "srv", "sys",
    "tmp", "usr", "var"]

private def isUsualFolder : List String → Bool
  | ["/", name] => name ∈ rootFolders
  | names => names = ["/"] || names.all (· = "..")

def isFolder (t : FileTree) (names : List String) : Bool :=
  isUsualFolder names || names ∈ t.folders

def device? : List String → Option Device
  | ["/", "dev", name] => Device.ofName? name
  | _ => none

def bytes? (t : FileTree) (names : List String) : Option ByteArray := t.files.lookup names

/-- The folders above a file, outermost first. -/
def foldersAbove (names : List String) : List (List String) :=
  (List.range' 1 (names.length - 1)).map names.take

/-- The tree with this file and the folders above it. -/
def withFile (t : FileTree) (names : List String) (bytes : ByteArray) : FileTree where
  files := t.files.filter (·.1 ≠ names) ++ [(names, bytes)]
  folders := t.folders ++ (foldersAbove names).filter (¬ t.isFolder ·)

/-- The folder above a folder. The root is above itself. -/
def above (names : List String) : List String :=
  if names = ["/"] then names
  else if names.all (· = "..") then names ++ [".."]
  else names.dropLast

def nameLimit : Nat := 255

def pathLimit : Nat := 4095

private def hasLongName (names : List String) : Bool :=
  names.getLast?.any (nameLimit < ·.utf8ByteSize)

/-- Why nothing is found at a place where nothing is. -/
private def lack (names : List String) : FileError :=
  if hasLongName names then .nameTooLong else .noSuchFile

/-- Follows names from a folder. -/
def follow (t : FileTree) (asFolder : Bool) :
    List String → List String → Except FileError Spot
  | folder, [] => .ok (.folder folder)
  | folder, "." :: rest => t.follow asFolder folder rest
  | folder, ".." :: rest => t.follow asFolder (above folder) rest
  | folder, name :: rest =>
    let reached := folder ++ [name]
    if t.isFolder reached then t.follow asFolder reached rest
    else if (device? reached).isSome ∨ (t.bytes? reached).isSome then
      if rest.isEmpty then .ok (.file reached asFolder) else .error .notADirectory
    else if rest.isEmpty then .ok (.absent reached asFolder)
    else .error (lack reached)

def locate (t : FileTree) (path : String) : Except FileError Spot :=
  if '\x00' ∈ path.toList then .error .zeroInName
  else if path.isEmpty then .error .noSuchFile
  else if pathLimit < path.utf8ByteSize then .error .nameTooLong
  else
    let segments := (path.toList.splitOn '/').map String.ofList
    t.follow (segments.getLast? = some "") (if Path.isAbsolute path then ["/"] else [])
      (segments.filter (· ≠ ""))

def read (t : FileTree) (path : String) : Except FileError String := do
  match ← t.locate path with
  | .file names false =>
    match t.bytes? names with
    | none => .ok ""
    | some bytes =>
      match String.fromUTF8? bytes with
      | some text => .ok text
      | none => .error .notText
  | .file _ true => .error .notADirectory
  | .absent names _ => .error (lack names)
  | .folder _ => .error .isADirectory

/-- The device that a path leads to. -/
def deviceAt? (t : FileTree) (path : String) : Option Device :=
  match t.locate path with
  | .ok (.file names false) => device? names
  | _ => none

/-- Whether these names lead to a place that is not below the working directory. -/
def isElsewhere (names : List String) : Bool :=
  names.head?.any fun name => name = ".." || name = "/"

/-- The path to a place from the working directory. -/
def pathTo (names : List String) : String :=
  Path.joinAll (if isElsewhere names then names else "." :: names)

def provider (t : FileTree) : SourceProvider where
  read := t.read
  isFile path :=
    match t.locate path with
    | .ok (.file names false) => (t.bytes? names).isSome
    | _ => false
  canonical? path :=
    match t.locate path with
    | .ok (.file names false) | .ok (.folder names) => some (pathTo names)
    | _ => none
  limit := t.files.length

private def writeTo (t : FileTree) (names : List String) (text : String) :
    Except FileError FileTree :=
  match device? names with
  | none => .ok (t.withFile names text.toUTF8)
  | some .full => if text.isEmpty then .ok t else .error .noSpaceLeft
  | some _ => .ok t

/-- Writes a file, which may be new; its folder must be there. -/
def write (t : FileTree) (path text : String) : Except FileError FileTree := do
  match ← t.locate path with
  | .file names false => t.writeTo names text
  | .absent names false =>
    if hasLongName names then .error .nameTooLong else t.writeTo names text
  | .file _ true | .absent _ true | .folder _ => .error .isADirectory

def makeFolder (t : FileTree) (path : String) : Except FileError FileTree := do
  match ← t.locate path with
  | .absent names _ =>
    if hasLongName names then .error .nameTooLong
    else .ok { t with folders := t.folders ++ [names] }
  | .file .. | .folder _ => .error .fileExists

private def leadsToFolder (t : FileTree) (path : String) : Bool :=
  match t.locate path with
  | .ok (.folder _) => true
  | _ => false

/-- A folder that is there already is as good as a new one. -/
private def ensureFolder (t : FileTree) (path : String) : Except FileError FileTree :=
  match t.makeFolder path with
  | .error e => if t.leadsToFolder path then .ok t else .error e
  | made => made

/-- Makes the folders above a path only where making the path itself fails for want of them. -/
def makeFoldersWithin (t : FileTree) (path : String) : Nat → Except FileError FileTree
  | 0 => .error .noSuchFile
  | depth + 1 =>
    if path.isEmpty then .ok t
    else match t.makeFolder path with
      | .error .noSuchFile => do
        let inside ← match Path.parent? path with
          | some parent => t.makeFoldersWithin parent depth
          | none => .error .noSuchFile
        inside.ensureFolder path
      | _ => t.ensureFolder path

/-- Makes the folder of this path and those above it. A path has no more folders above it than
characters. -/
def makeFolders (t : FileTree) (path : String) : Except FileError FileTree :=
  t.makeFoldersWithin path (path.length + 1)

/-- The folders of `after` that are not there before. -/
def newFolders (before after : FileTree) : List (List String) :=
  after.folders.filter (· ∉ before.folders)

/-- The files that are new in `after` or hold something else there. -/
def changes (before after : FileTree) : List (List String × ByteArray) :=
  after.files.filter fun (names, bytes) =>
    (before.bytes? names).map ByteArray.data ≠ some bytes.data

/-- The changes to files below the working directory. -/
def changesBelow (before after : FileTree) : List (List String × ByteArray) :=
  (before.changes after).filter (¬ isElsewhere ·.1)

end FileTree

end IdlFrontEnd
