import IdlFrontEnd.Declaration.Basic
import IdlFrontEnd.Options
import IdlFrontEnd.Path
import IdlFrontEnd.Source.Provider

/-!
# Where a type is declared

The type `a.b.C` is declared in a file `a/b/C.aidl`, and there its import is looked for: first under
each import path in order, then among the input files by the end of their paths. A type nested in
another by its dotted name is declared in the file of the outermost one.
-/
namespace IdlFrontEnd

def fileExtension : String := "aidl"

def Declaration.expectedFile (d : Declaration) : String :=
  let outermost := (Text.dotted d.name).headD d.name
  Path.join (Path.joinAll d.header.package) (outermost ++ "." ++ fileExtension)

/-- One diagnostic, unless the path ends in the file expected for the declaration. -/
def Declaration.placementNotes (d : Declaration) (path : String) : List Diagnostic :=
  if Path.endsWith path d.expectedFile then []
  else [.atPlace d.location (.misplaced d.canonical d.expectedFile)]

namespace ImportSearch

def relativeFile (className : String) : String :=
  Path.withExtension (Path.joinAll (Text.dotted className)) fileExtension

/-- The file that should declare a class. An input file is taken without asking whether it is
there. -/
def file? (provider : SourceProvider) (options : Options) (className : String) : Option String :=
  let relative := relativeFile className
  (options.importPaths.map (Path.join · relative)).find? provider.isFile
    <|> options.inputFiles.find? (Path.endsWith · relative)

end ImportSearch

end IdlFrontEnd
