/-!
# Options of a run

Where imports are searched, which preprocessed files are read first, the input files, and two
strictness settings. Settings from several places are merged in order: lists are joined and a flag
is on if any place sets it.
-/
namespace IdlFrontEnd

structure Options where
  importPaths : List String
  preprocessedFiles : List String
  inputFiles : List String
  /-- Refuse units that know a parcelable without fields. -/
  structured : Bool
  /-- A file with nothing but unstructured parcelables is an error. -/
  failOnParcelable : Bool
  deriving DecidableEq, Repr

namespace Options

def empty : Options := ⟨[], [], [], false, false⟩

def merge (o other : Options) : Options where
  importPaths := o.importPaths ++ other.importPaths
  preprocessedFiles := o.preprocessedFiles ++ other.preprocessedFiles
  inputFiles := o.inputFiles ++ other.inputFiles
  structured := o.structured || other.structured
  failOnParcelable := o.failOnParcelable || other.failOnParcelable

end Options

end IdlFrontEnd
