/-!
# Items of a command line

The words of a command line are read in two scopes, before the name of the command and after it. A
word is an option if it starts with a dash and has more than that, and an operand otherwise; after a
word of two dashes all words are operands. An option has a long name after two dashes, or a letter
after one, where the letters of several flags may share a word. A parameter takes its value from
the same word, after an equals sign or right after the letter, or else from the next word, which may
not be an option.
-/
namespace IdlFrontEnd.CommandLine

inductive Flag where
  | quiet | structured | failOnParcelable | verbose
  deriving DecidableEq, Repr

/-- An option with a value. -/
inductive Parameter where
  | format | importPath | preprocessedFile | config | outputFile
  deriving DecidableEq, Repr

inductive Misuse where
  | unknownOption (word : String) | missingValue (parameter : String)
  | unneededValue (word : String) | emptyValue | badFormat (value : String)
  | repeated (option : String) | missingCommand | unknownCommand (word : String)
  | missingOperand | extraOperand (word : String)
  deriving DecidableEq, Repr

def Misuse.message : Misuse → String
  | .unknownOption word => s!"unexpected option '{word}'"
  | .missingValue parameter => s!"a value is required for '{parameter}'"
  | .unneededValue word => s!"'{word}' takes no value"
  | .emptyValue => "a path cannot be empty"
  | .badFormat value => s!"invalid output format '{value}'"
  | .repeated option => s!"'{option}' cannot be used more than once"
  | .missingCommand => "a command is required"
  | .unknownCommand word => s!"unrecognized command '{word}'"
  | .missingOperand => "a file is required"
  | .extraOperand word => s!"unexpected argument '{word}'"

inductive CommandName where
  | check | preprocess | dumpApi | exportUnit
  deriving DecidableEq, Repr

namespace CommandName

def text : CommandName → String
  | .check => "check"
  | .preprocess => "preprocess"
  | .dumpApi => "dump-api"
  | .exportUnit => "export"

def ofText? (word : String) : Option CommandName :=
  [check, preprocess, dumpApi, exportUnit].find? (·.text = word)

end CommandName

inductive Meaning where
  | flag (flag : Flag) | parameter (parameter : Parameter) | help | version
  deriving DecidableEq, Repr

structure OptionName where
  long : String
  letter : Option Char
  meaning : Meaning
  deriving DecidableEq, Repr

inductive Scope where
  | general | command (name : CommandName)
  deriving DecidableEq, Repr

inductive Item where
  | flag (flag : Flag) | parameter (parameter : Parameter) (value : String)
  | operand (word : String) | help | version | misuse (cause : Misuse)
  deriving DecidableEq, Repr

namespace Scope

def sharedOptions : List OptionName :=
  [⟨"output", none, .parameter .format⟩, ⟨"quiet", none, .flag .quiet⟩,
   ⟨"include", some 'I', .parameter .importPath⟩,
   ⟨"preprocessed", some 'p', .parameter .preprocessedFile⟩,
   ⟨"structured", none, .flag .structured⟩,
   ⟨"fail-on-parcelable", none, .flag .failOnParcelable⟩,
   ⟨"config", none, .parameter .config⟩, ⟨"verbose", some 'v', .flag .verbose⟩,
   ⟨"help", some 'h', .help⟩]

def options (s : Scope) : List OptionName :=
  sharedOptions ++ match s with
    | .general => [⟨"version", some 'V', .version⟩]
    | .command .dumpApi => [⟨"out", none, .parameter .outputFile⟩]
    | .command _ => []

/-- What one word says: some items, and the parameter whose value the next word is. -/
structure Reading where
  items : List Item
  pending : Option Parameter

private def misuse (cause : Misuse) : Reading := ⟨[.misuse cause], none⟩

/-- Reads a long name, given without its dashes. -/
def long (s : Scope) (word : List Char) : Reading :=
  let text := String.ofList word
  let value? := (word.dropWhile (· ≠ '=')).tail?.map String.ofList
  let name := String.ofList (word.takeWhile (· ≠ '='))
  match (s.options.find? (·.long = name)).map OptionName.meaning, value? with
  | none, _ => misuse (.unknownOption text)
  | some (.parameter p), some value => ⟨[.parameter p value], none⟩
  | some (.parameter p), none => ⟨[], some p⟩
  | some _, some _ => misuse (.unneededValue text)
  | some (.flag f), none => ⟨[.flag f], none⟩
  | some .help, none => ⟨[.help], none⟩
  | some .version, none => ⟨[.version], none⟩

/-- An equals sign between a letter and its value is left out. -/
private def attached (cs : List Char) : String :=
  String.ofList (if cs.head? = some '=' then cs.tail else cs)

/-- Reads the letters of one word. A parameter takes all letters after it as its value. -/
def letters (s : Scope) : List Char → Reading
  | [] => ⟨[], none⟩
  | c :: cs =>
    let andThen (item : Item) : Reading :=
      let others := s.letters cs
      ⟨item :: others.items, others.pending⟩
    match (s.options.find? (·.letter = some c)).map OptionName.meaning with
    | none => misuse (.unknownOption (String.singleton c))
    | some (.parameter p) =>
      if cs.isEmpty then ⟨[], some p⟩ else ⟨[.parameter p (attached cs)], none⟩
    | some (.flag f) => andThen (.flag f)
    | some .help => andThen .help
    | some .version => andThen .version

def isOption (word : String) : Bool :=
  match word.toList with
  | '-' :: _ :: _ => true
  | _ => false

def word (s : Scope) (text : String) : Reading :=
  match text.toList with
  | '-' :: '-' :: name => s.long name
  | '-' :: c :: cs => s.letters (c :: cs)
  | _ => ⟨[.operand text], none⟩

private def prepend (items : List Item) (left : List Item × List String) :
    List Item × List String :=
  (items ++ left.1, left.2)

/-- The items of the words up to the end of the scope, with the words from there on. The general
scope ends at the first operand or at a word of two dashes. -/
def items (s : Scope) : List String → List Item × List String
  | [] => ([], [])
  | text :: rest =>
    if s = .general ∧ (text = "--" ∨ ¬ isOption text) then ([], text :: rest)
    else if text = "--" then (rest.map .operand, [])
    else
      let found := s.word text
      match found.pending, rest with
      | none, rest => prepend found.items (s.items rest)
      | some p, value :: rest =>
        if isOption value then (found.items ++ [.misuse (.missingValue text)], [])
        else prepend (found.items ++ [.parameter p value]) (s.items rest)
      | some _, [] => (found.items ++ [.misuse (.missingValue text)], [])

end Scope

end IdlFrontEnd.CommandLine
