import IdlFrontEnd.Annotation
import IdlFrontEnd.Location
import IdlFrontEnd.Phase
import IdlFrontEnd.Source.FileError

/-!
# Diagnostics

A diagnostic says at which site which cause was found. The causes are those of scanning, building,
loading and checking a declaration file; each has one wording. A fatal cause is a request out of
turn, such as checking a type before it was resolved, and ends the work that met it.
-/
namespace IdlFrontEnd

inductive Site where
  | file (name : String) | place (location : Location) | unplaced
  deriving DecidableEq, Repr

def Site.text? : Site → Option String
  | .file name => some name
  | .place location => some location.text
  | .unplaced => none

inductive Severity where
  | error | fatal
  deriving DecidableEq, Repr

def Severity.name : Severity → String
  | .error => "error"
  | .fatal => "fatal"

/-- What is wrong with an argument of a method. -/
inductive ArgumentFault where
  | directionMissing (type : String) | mustBeInput (argument : String)
  | reservedWord | reservedStart
  deriving DecidableEq, Repr

def ArgumentFault.message : ArgumentFault → String
  | .directionMissing type =>
    s!"'{type}' can be an out type, so you must declare it as in, out, or inout."
  | .mustBeInput argument => s!"'{argument}' can only be an in parameter."
  | .reservedWord => "Argument name is a Java or aidl keyword"
  | .reservedStart => "Argument name cannot begin with '_aidl'"

def minMethodId : Int := 0
def maxMethodId : Int := 16777214

inductive Cause where
  | openComment | openString | strayCharacter (c : Char)
  | expected (wanted got : String) | badMethodNumber (text : String)
  | unannotationNamed (name : String)
  | badInteger (text : String) | badStringCharacter (index : Nat) (text : String)
  | unreadable (error : FileError)
  | redefinedType (canonical : String) | unresolvedName (name : String)
  | parsedOutOfTurn (phase : Phase) | resolvedOutOfTurn (phase : Phase)
  | documentVanished | notOneType
  | misplaced (canonical file : String) | badPackage (package : String)
  | importNotFound (className : String) | importFailed (path className : String)
  | importDoesNotDeclare (path className : String)
  | nothingDefined | severalDefined | notStructured (canonical : String)
  | preprocessedUnreadable (error : FileError) | preprocessedMalformed (line : String)
  | checkedUnresolved (type : String) | exportedUnresolved (type : String)
  | listArity (type : String) | mapArity (type : String) | notGeneric (name type : String)
  | argument (name : String) (index : Nat) (fault : ArgumentFault)
  | clashingEncodings | onewayReturns (method : String) | onewayOut (method : String)
  | redefinedMethod (method : String) | previousDefinition
  | repeatedMethodId (id : Int) (method : String) | methodIdOutOfRange (id : Int) (method : String)
  | someMethodIdsMissing
  | repeatedConstant (name : String) | constantType (name type : String)
  | constantMismatch (name type valueType : String)
  | other (text : String)
  deriving DecidableEq, Repr

def Cause.message : Cause → String
  | .openComment => "unterminated block comment"
  | .openString => "unterminated string literal"
  | .strayCharacter c => s!"unexpected character '{c}'"
  | .expected wanted got => s!"syntax error: expected {wanted}, got {got}"
  | .badMethodNumber text => s!"Found invalid method id '{text}'"
  | .unannotationNamed name =>
    let known := String.intercalate ", " <| Annotation.all.map Annotation.name
    s!"'{name}' is not a recognized annotation. It must be one of: {known}"
  | .badInteger text => s!"Found invalid int value '{text}'"
  | .badStringCharacter index text =>
    s!"Found invalid character at index {index} in string constant '{text}'"
  | .unreadable error => "error while opening file for parsing: " ++ error.message
  | .redefinedType canonical => s!"redefinition of type '{canonical}'"
  | .unresolvedName name => s!"Failed to resolve '{name}'"
  | .parsedOutOfTurn phase => "parse_file called in state " ++ phase.name
  | .resolvedOutOfTurn phase => "resolve called in state " ++ phase.name
  | .documentVanished => "input document vanished"
  | .notOneType => "input must define exactly one type"
  | .misplaced canonical file => s!"{canonical} should be declared in a file called {file}"
  | .badPackage package => s!"Invalid package declaration '{package}'"
  | .importNotFound className => s!"couldn't find import for class {className}"
  | .importFailed path className => s!"error while importing {path} for {className}"
  | .importDoesNotDeclare path className => s!"{path} does not declare {className}"
  | .nothingDefined => "Cannot generate file without any definitions."
  | .severalDefined => "Exactly one structured type is required to be defined."
  | .notStructured canonical =>
    s!"{canonical} is not structured, but this is a structured interface."
  | .preprocessedUnreadable error => "cannot open preprocessed file: " ++ error.message
  | .preprocessedMalformed line => s!"malformed preprocessed file line: '{line}'"
  | .checkedUnresolved type => s!"type '{type}' validated before it was resolved"
  | .exportedUnresolved type => s!"cannot serialize unresolved type '{type}'"
  | .listArity type => s!"List cannot have type parameters more than one, but got '{type}'"
  | .mapArity type => s!"Map must have 0 or 2 type parameters, but got '{type}'"
  | .notGeneric name type => s!"'{name}' is not a generic type, but got '{type}'"
  | .argument name index fault => s!"parameter {name} (argument {index}): " ++ fault.message
  | .clashingEncodings => "Interface cannot be marked as both @utf8 and @utf8InCpp"
  | .onewayReturns method => s!"oneway method '{method}' cannot return a value"
  | .onewayOut method => s!"oneway method '{method}' cannot have out parameters"
  | .redefinedMethod method => s!"attempt to redefine method {method}:"
  | .previousDefinition => "previously defined here."
  | .repeatedMethodId id method => s!"Found duplicate method id ({id}) for method {method}"
  | .methodIdOutOfRange id method =>
    s!"Found out of bounds id ({id}) for method {method}. Value for id must be between "
      ++ s!"{minMethodId} and {maxMethodId} inclusive."
  | .someMethodIdsMissing => "You must either assign id's to all methods or to none of them."
  | .repeatedConstant name => s!"Found duplicate constant name '{name}'"
  | .constantType name type => s!"Constant '{name}' has unsupported type '{type}'"
  | .constantMismatch name type valueType =>
    s!"Constant '{name}' is declared as {type} but its value is of type {valueType}"
  | .other text => text

structure Diagnostic where
  severity : Severity
  site : Site
  cause : Cause
  deriving DecidableEq, Repr

namespace Diagnostic

def message (d : Diagnostic) : String :=
  d.cause.message

/-- The output line of a diagnostic; a fatal one reads like any other. -/
def line (d : Diagnostic) : String :=
  match d.site.text? with
  | some site => s!"ERROR: {site}: " ++ d.message
  | none => "ERROR: " ++ d.message

def atPlace (location : Location) (cause : Cause) : Diagnostic := ⟨.error, .place location, cause⟩

def atFile (name : String) (cause : Cause) : Diagnostic := ⟨.error, .file name, cause⟩

end Diagnostic

/-- A request out of turn, with the site at which it is reported. -/
structure Fatal where
  site : Site
  cause : Cause
  deriving DecidableEq, Repr

namespace Fatal

def diagnostic (f : Fatal) : Diagnostic := ⟨.fatal, f.site, f.cause⟩

def message (f : Fatal) : String := "internal error: " ++ f.cause.message

end Fatal

/-- The diagnostics so far, and the count of errors. -/
structure Reporter where
  errors : Nat
  diagnostics : List Diagnostic
  deriving DecidableEq, Repr

namespace Reporter

def empty : Reporter := ⟨0, []⟩

/-- Every diagnostic counts as an error, a fatal one too. -/
def emit (r : Reporter) (n : Diagnostic) : Reporter := ⟨r.errors + 1, r.diagnostics ++ [n]⟩

def emitAll (r : Reporter) (notes : List Diagnostic) : Reporter := notes.foldl emit r

theorem emitAll_append (r : Reporter) (notes more : List Diagnostic) :
    r.emitAll (notes ++ more) = (r.emitAll notes).emitAll more :=
  List.foldl_append

theorem diagnostics_emitAll (r : Reporter) (notes : List Diagnostic) :
    (r.emitAll notes).diagnostics = r.diagnostics ++ notes := by
  induction notes generalizing r with
  | nil => exact (List.append_nil _).symm
  | cons n notes ih =>
    change ((r.emit n).emitAll notes).diagnostics = _
    rw [ih]
    simp [emit]

theorem errors_emitAll (r : Reporter) (notes : List Diagnostic) :
    (r.emitAll notes).errors = r.errors + notes.length := by
  induction notes generalizing r with
  | nil => rfl
  | cons n notes ih =>
    change ((r.emit n).emitAll notes).errors = _
    rw [ih, List.length_cons]
    simp only [emit]
    omega

end Reporter

end IdlFrontEnd
