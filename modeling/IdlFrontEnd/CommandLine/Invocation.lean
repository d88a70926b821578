import IdlFrontEnd.Options

/-!
# Invocations

An invocation is a command line that was accepted: one command with its files, how its results are
shown, the options that are given in the line and the settings file, if one is named.
-/
namespace IdlFrontEnd.CommandLine

inductive Format where
  | text | json
  deriving DecidableEq, Repr

inductive Command where
  | check (file : String) | preprocess (out : String) (files : List String)
  | dumpApi (files : List String) (out : Option String) | exportUnit (file : String)
  deriving DecidableEq, Repr

structure Invocation where
  command : Command
  format : Format
  quiet : Bool
  importPaths : List String
  preprocessedFiles : List String
  structured : Bool
  failOnParcelable : Bool
  config : Option String
  deriving DecidableEq, Repr

/-- The options of the line itself. Its files belong to the command. -/
def Invocation.options (i : Invocation) : Options :=
  ⟨i.importPaths, i.preprocessedFiles, [], i.structured, i.failOnParcelable⟩

end IdlFrontEnd.CommandLine
