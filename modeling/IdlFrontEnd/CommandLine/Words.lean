import IdlFrontEnd.CommandLine.Invocation
import IdlFrontEnd.CommandLine.Item

/-!
# Reading a command line

A command line is an invocation of one command, a request for the help or the version, or a misuse.
What comes first in the line decides: an item is refused, or a request met, before the items after
it are looked at. In one scope a flag and a parameter with one value stand at most once. A parameter
that is given after the command's name replaces all its values before it; a flag counts in either
place.
-/
namespace IdlFrontEnd.CommandLine

def Format.ofText? : String → Option Format
  | "text" => some .text
  | "json" => some .json
  | _ => none

/-- Why a command line runs no command. -/
inductive Stop where
  | help | version | misuse (cause : Misuse)
  deriving DecidableEq, Repr

/-- What the items of one scope say. -/
structure Level where
  flags : List Flag
  values : List (Parameter × String)
  operands : List String
  deriving DecidableEq, Repr

namespace Level

def empty : Level := ⟨[], [], []⟩

def valuesOf (l : Level) (p : Parameter) : List String :=
  (l.values.filter (·.1 = p)).map (·.2)

private def isList : Parameter → Bool
  | .importPath | .preprocessedFile => true
  | .format | .config | .outputFile => false

/-- Every parameter but the format is a path. -/
private def valueFault? : Parameter → String → Option Misuse
  | .format, value => if (Format.ofText? value).isNone then some (.badFormat value) else none
  | _, value => if value.isEmpty then some .emptyValue else none

/-- How many operands a scope takes at most. -/
private def hasRoom : Scope → Nat → Bool
  | .general, _ => false
  | .command .check, count | .command .exportUnit, count => count = 0
  | .command .preprocess, _ | .command .dumpApi, _ => true

private def nameOf (s : Scope) (m : Meaning) : String :=
  ((s.options.find? (·.meaning = m)).map OptionName.long).getD ""

def add (s : Scope) (l : Level) : Item → Except Stop Level
  | .flag f =>
    if f ∈ l.flags then throw (.misuse (.repeated (nameOf s (.flag f))))
    else return { l with flags := l.flags ++ [f] }
  | .parameter p value =>
    match valueFault? p value with
    | some fault => throw (.misuse fault)
    | none =>
      if isList p ∨ l.valuesOf p = [] then return { l with values := l.values ++ [(p, value)] }
      else throw (.misuse (.repeated (nameOf s (.parameter p))))
  | .operand word =>
    if ¬ hasRoom s l.operands.length then throw (.misuse (.extraOperand word))
    else if word.isEmpty then throw (.misuse .emptyValue)
    else return { l with operands := l.operands ++ [word] }
  | .help => throw .help
  | .version => throw .version
  | .misuse cause => throw (.misuse cause)

def ofItems (s : Scope) (items : List Item) : Except Stop Level :=
  items.foldlM (add s) empty

/-- The values of a parameter in the innermost scope that gives any. -/
def valuesOver (inner outer : Level) (p : Parameter) : List String :=
  if inner.valuesOf p = [] then outer.valuesOf p else inner.valuesOf p

end Level

def Command.ofOperands? (out : Option String) : CommandName → List String → Option Command
  | .check, [file] => some (.check file)
  | .exportUnit, [file] => some (.exportUnit file)
  | .preprocess, out :: file :: files => some (.preprocess out (file :: files))
  | .dumpApi, file :: files => some (.dumpApi (file :: files) out)
  | _, _ => none

namespace Invocation

def ofLevels (name : CommandName) (outer inner : Level) : Except Stop Invocation := do
  let last (p : Parameter) := (inner.valuesOver outer p).getLast?
  let set (f : Flag) : Bool := f ∈ outer.flags ∨ f ∈ inner.flags
  match Command.ofOperands? (last .outputFile) name inner.operands with
  | none => throw (.misuse .missingOperand)
  | some command =>
    return {
      command
      format := ((last .format).bind Format.ofText?).getD .text
      quiet := set .quiet
      importPaths := inner.valuesOver outer .importPath
      preprocessedFiles := inner.valuesOver outer .preprocessedFile
      structured := set .structured
      failOnParcelable := set .failOnParcelable
      config := last .config }

/-- A request for the help on a command, on the help itself or on everything. -/
private def helpOn : List String → Stop
  | [] | ["help"] => .help
  | [word] => if (CommandName.ofText? word).isSome then .help else .misuse (.unknownCommand word)
  | _ :: word :: _ => .misuse (.unknownCommand word)

def ofWords (words : List String) : Except Stop Invocation := do
  let (items, rest) := Scope.general.items words
  let outer ← Level.ofItems .general items
  match rest with
  | [] | "--" :: [] => throw (.misuse .missingCommand)
  | "help" :: rest => throw (helpOn rest)
  | word :: rest =>
    match CommandName.ofText? word with
    | none => throw (.misuse (.unknownCommand word))
    | some name =>
      let inner ← Level.ofItems (.command name) ((Scope.command name).items rest).1
      ofLevels name outer inner

end Invocation

end IdlFrontEnd.CommandLine
