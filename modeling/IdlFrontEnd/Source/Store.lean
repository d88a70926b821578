import IdlFrontEnd.Path
import IdlFrontEnd.Source.Provider

/-!
# Files in memory

A store finds a file by the normal form of its path, so paths that differ only in `.`, in repeated
slashes or in a way there and back by `..` name the same file.
-/
namespace IdlFrontEnd

structure FileStore where
  files : List (List Path.Component × String)
  deriving DecidableEq, Repr

namespace FileStore

def empty : FileStore := ⟨[]⟩

def find? (s : FileStore) (path : String) : Option String :=
  s.files.lookup (Path.normalForm path)

/-- Replaces the file of this path or adds it. -/
def insert (s : FileStore) (path text : String) : FileStore :=
  let key := Path.normalForm path
  ⟨(key, text) :: s.files.filter (·.1 ≠ key)⟩

def contains (s : FileStore) (path : String) : Bool := (s.find? path).isSome

def read (s : FileStore) (path : String) : Except FileError String :=
  match s.find? path with
  | some text => .ok text
  | none => .error (.notStored (Path.normalize path))

def canonicalize (s : FileStore) (path : String) : Except FileError String :=
  if s.contains path then .ok (Path.normalize path)
  else .error (.noCanonicalForm (Path.normalize path))

def provider (s : FileStore) : SourceProvider where
  read := s.read
  isFile := s.contains
  canonical? path := (s.canonicalize path).toOption
  limit := s.files.length

end FileStore

end IdlFrontEnd
