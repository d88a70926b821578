/-!
# Why a file cannot be read or written

The causes a file system gives, with its wording, and the two causes of a store that keeps its
files in memory.
-/
namespace IdlFrontEnd

inductive FileError where
  | noSuchFile | fileExists | notADirectory | isADirectory | noSpaceLeft | nameTooLong
  | zeroInName | notText
  | notStored (path : String)
  | noCanonicalForm (path : String)
  deriving DecidableEq, Repr

def FileError.message : FileError → String
  | .noSuchFile => "No such file or directory (os error 2)"
  | .fileExists => "File exists (os error 17)"
  | .notADirectory => "Not a directory (os error 20)"
  | .isADirectory => "Is a directory (os error 21)"
  | .noSpaceLeft => "No space left on device (os error 28)"
  | .nameTooLong => "File name too long (os error 36)"
  | .zeroInName => "file name contained an unexpected NUL byte"
  | .notText => "stream did not contain valid UTF-8"
  | .notStored path => "file not found in memory: " ++ path
  | .noCanonicalForm path => "path not found in memory provider: " ++ path

end IdlFrontEnd
