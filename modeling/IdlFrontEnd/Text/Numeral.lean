/-!
# Numerals of 32 bits

A decimal numeral is an optional sign and at least one digit, and it denotes a value of
`-2^31 .. 2^31 - 1`. A hexadecimal numeral is a bit pattern: an optional plus sign and at least one
digit, with a value below `2^32`, read as a two's complement number.
-/
namespace IdlFrontEnd.Text

/-- The value of an ASCII digit in a base up to sixteen. -/
def digitValue? (base : Nat) (c : Char) : Option Nat :=
  let value? : Option Nat :=
    if '0' ≤ c ∧ c ≤ '9' then some (c.toNat - '0'.toNat)
    else if 'a' ≤ c ∧ c ≤ 'f' then some (c.toNat - 'a'.toNat + 10)
    else if 'A' ≤ c ∧ c ≤ 'F' then some (c.toNat - 'A'.toNat + 10)
    else none
  value?.filter (· < base)

/-- The value of `cs` after digits worth `value`; every character must be a digit. -/
def digitsFrom? (base : Nat) (value : Nat) : List Char → Option Nat
  | [] => some value
  | c :: cs => (digitValue? base c).bind fun d => digitsFrom? base (value * base + d) cs

def digits? (base : Nat) (cs : List Char) : Option Nat :=
  if cs.isEmpty then none else digitsFrom? base 0 cs

def int32Min : Int := -0x80000000
def int32Max : Int := 0x7FFFFFFF

/-- The number of bit patterns, `2^32`. -/
def patternCount : Nat := 0x100000000

def signed? : List Char → Option Int
  | '-' :: cs => (digits? 10 cs).map fun n => -(n : Int)
  | '+' :: cs => (digits? 10 cs).map fun n => (n : Int)
  | cs => (digits? 10 cs).map fun n => (n : Int)

def decimal? (text : String) : Option Int :=
  (signed? text.toList).filter fun n => int32Min ≤ n ∧ n ≤ int32Max

/-- The digits of a hexadecimal numeral, without the `0x` or `0X` that must open it. -/
def hexDigits? : List Char → Option (List Char)
  | '0' :: 'x' :: cs => some cs
  | '0' :: 'X' :: cs => some cs
  | _ => none

def pattern? : List Char → Option Nat
  | '+' :: cs => digits? 16 cs
  | cs => digits? 16 cs

/-- The pattern `n` stands for the number congruent to it modulo `2^32` that fits 32 signed bits. -/
def ofPattern (n : Nat) : Int :=
  Int.bmod n patternCount

def hexadecimal? (text : String) : Option Int :=
  ((hexDigits? text.toList).bind pattern?).filter (· < patternCount) |>.map ofPattern

end IdlFrontEnd.Text
