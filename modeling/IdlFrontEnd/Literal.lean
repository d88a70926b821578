import IdlFrontEnd.Diagnostic
import IdlFrontEnd.Text.Numeral

/-!
# Literals

The value of a constant or of a default. A literal that cannot be read is reported where it stands
and becomes an invalid value, so that what contains it is still built and can be rejected later.
A string keeps its quotes; only printable ASCII other than the backslash may stand in it.
-/
namespace IdlFrontEnd

inductive LiteralValue where
  | invalid | int (value : Int) | string (quoted : String)
  deriving DecidableEq, Repr

structure Literal where
  location : Location
  value : LiteralValue
  deriving DecidableEq, Repr

namespace Literal

def ofInt (location : Location) (value : Int) : Literal :=
  ⟨location, .int value⟩

def numeral (location : Location) (text : String) :
    Option Int → Literal × List Diagnostic
  | some n => (ofInt location n, [])
  | none => (⟨location, .invalid⟩, [.atPlace location (.badInteger text)])

def ofDecimal (location : Location) (text : String) : Literal × List Diagnostic :=
  numeral location text (Text.decimal? text)

def ofHexadecimal (location : Location) (text : String) : Literal × List Diagnostic :=
  numeral location text (Text.hexadecimal? text)

/-- Hexadecimal if the text opens with `0x` or `0X`, else decimal. -/
def ofNumber (location : Location) (text : String) : Literal × List Diagnostic :=
  if (Text.hexDigits? text.toList).isSome then ofHexadecimal location text
  else ofDecimal location text

def isPlain (c : Char) : Bool :=
  0x20 ≤ c.toNat && c.toNat < 0x7F && c ≠ '\\'

def ofString (location : Location) (quoted : String) : Literal × List Diagnostic :=
  match quoted.toList.findIdx? (!isPlain ·) with
  | some index =>
    (⟨location, .invalid⟩, [.atPlace location (.badStringCharacter index quoted)])
  | none => (⟨location, .string quoted⟩, [])

end Literal

namespace LiteralValue

/-- The name of the type whose values these are. -/
def typeName : LiteralValue → String
  | .invalid => "error"
  | .int _ => "int"
  | .string _ => "String"

def int? : LiteralValue → Option Int
  | .int value => some value
  | _ => none

/-- The characters of a string without the quotes at both ends. -/
def string? : LiteralValue → Option String
  | .string quoted =>
    some (String.ofList (unquoted quoted.toList))
  | _ => none
where
  unquoted (cs : List Char) : List Char :=
    ((cs.dropWhile (· = '"')).reverse.dropWhile (· = '"')).reverse

/-- The literal as written; an invalid one has no text. -/
def text : LiteralValue → String
  | .invalid => ""
  | .int value => toString value
  | .string quoted => quoted

end LiteralValue

end IdlFrontEnd
