import IdlFrontEnd.Text.Numeral

/-!
# Scalars of a settings file

Flags, numbers and moments are words without quotes. An integer has 64 bits with a sign; it is
decimal, without a zero in front, or follows `0x`, `0o` or `0b` and then has no sign. A float has a
fraction or an exponent, or is `inf` or `nan`, and a positive one must not be too large for double
precision. One underscore may stand between two digits. A moment is a date of the Gregorian
calendar, a time of day, or a date and a time with a `T` or one space between them, after which the
offset from UTC may stand. Numbers and moments are kept as written, since no option is one.
-/
namespace IdlFrontEnd.Toml

inductive Scalar where
  | flag (value : Bool) | number (written : String) | moment (written : String)
  deriving DecidableEq, Repr

namespace Scalar

def isWordPart (c : Char) : Bool :=
  c.isAlphanum || c = '_' || c = '-' || c = '+' || c = '.' || c = ':'

/-- A word without its sign, and whether that was a minus. -/
def splitSign : List Char → Bool × List Char
  | '-' :: cs => (true, cs)
  | '+' :: cs => (false, cs)
  | cs => (false, cs)

/-- The digits of a word in which each underscore stands between two of them. -/
def digits? (base : Nat) (word : List Char) : Option (List Char) :=
  let groups := word.splitOn '_'
  if groups.all fun g => ¬ g.isEmpty ∧ g.all fun c => (Text.digitValue? base c).isSome then
    some groups.flatten
  else none

/-- Decimal digits without a zero in front. -/
def wholeDigits? (word : List Char) : Option (List Char) :=
  (digits? 10 word).filter fun ds => ds.length = 1 ∨ ds.head? ≠ some '0'

def int64Max : Nat := 0x7FFFFFFFFFFFFFFF

private def isAtMost (limit base : Nat) (digits : Option (List Char)) : Bool :=
  (digits.bind (Text.digits? base)).any (· ≤ limit)

def isInteger : List Char → Bool
  | '0' :: 'x' :: ds => isAtMost int64Max 16 (digits? 16 ds)
  | '0' :: 'o' :: ds => isAtMost int64Max 8 (digits? 8 ds)
  | '0' :: 'b' :: ds => isAtMost int64Max 2 (digits? 2 ds)
  | word =>
    let (negative, ds) := splitSign word
    isAtMost (if negative then int64Max + 1 else int64Max) 10 (wholeDigits? ds)

/-- The least number that rounds to infinity in double precision. -/
def doubleLimit : Nat := Nat.pow 2 1024 - Nat.pow 2 970

/-- Whether the number `digits · 10^exponent` rounds to infinity. It has `top` digits before the
point, and the limit has 309. -/
def isTooLarge (digits : List Char) (exponent : Int) : Bool :=
  let kept := digits.dropWhile (· = '0')
  match Text.digits? 10 kept with
  | none => false
  | some n =>
    let top := kept.length + exponent
    if top = 309 then
      doubleLimit * Nat.pow 10 (-exponent).toNat ≤ n * Nat.pow 10 exponent.toNat
    else 309 < top

private def exponent? (word : List Char) : Option Int :=
  let (negative, ds) := splitSign word
  ((digits? 10 ds).bind (Text.digits? 10)).map fun n => if negative then -(n : Int) else n

private def isExponentMark (c : Char) : Bool := c = 'e' || c = 'E'

/-- The digits of a float without a sign, and the power of ten that they are multiplied with. -/
def decimal? (word : List Char) : Option (List Char × Int) := do
  let mantissa := word.takeWhile (!isExponentMark ·)
  match mantissa.splitOn '.', word.dropWhile (!isExponentMark ·) with
  | [whole], _ :: power => return (← wholeDigits? whole, ← exponent? power)
  | [whole, fraction], tail =>
    let after ← digits? 10 fraction
    let power ← if tail.isEmpty then some 0 else exponent? tail.tail
    return ((← wholeDigits? whole) ++ after, power - after.length)
  | _, _ => none

def isFloat (word : List Char) : Bool :=
  let (negative, body) := splitSign word
  body = ['i', 'n', 'f'] || body = ['n', 'a', 'n']
    || (decimal? body).any fun (digits, exponent) => negative || !isTooLarge digits exponent

/-- A number of exactly `size` digits in a range, with what follows it. -/
private def field? (size low high : Nat) (cs : List Char) : Option (Nat × List Char) :=
  let digits := cs.take size
  if digits.length = size then
    ((Text.digits? 10 digits).filter fun n => low ≤ n ∧ n ≤ high).map fun n => (n, cs.drop size)
  else none

def isLeap (year : Nat) : Bool := year % 4 = 0 && (year % 100 ≠ 0 || year % 400 = 0)

def daysIn (year month : Nat) : Nat :=
  if month = 2 then if isLeap year then 29 else 28
  else if month ∈ [4, 6, 9, 11] then 30
  else 31

/-- What follows the date that a word starts with. -/
def afterDate? (word : List Char) : Option (List Char) := do
  let (year, '-' :: rest) ← field? 4 0 9999 word | none
  let (month, '-' :: rest) ← field? 2 1 12 rest | none
  let (_, rest) ← field? 2 1 (daysIn year month) rest
  return rest

private def afterHourAndMinute? (word : List Char) : Option (List Char) := do
  let (_, ':' :: rest) ← field? 2 0 23 word | none
  let (_, rest) ← field? 2 0 59 rest
  return rest

/-- What follows the time that a word starts with. The last minute may have a leap second. -/
def afterTime? (word : List Char) : Option (List Char) := do
  let ':' :: rest ← afterHourAndMinute? word | none
  let (_, rest) ← field? 2 0 60 rest
  match rest with
  | '.' :: c :: cs => return if c.isDigit then cs.dropWhile Char.isDigit else rest
  | _ => return rest

def isOffset : List Char → Bool
  | [] | ['Z'] | ['z'] => true
  | sign :: cs => (sign = '+' || sign = '-') && afterHourAndMinute? cs == some []

/-- A time after a date. -/
private def isTimeOfDate (word : List Char) : Bool := (afterTime? word).any isOffset

def isMoment (word : List Char) : Bool :=
  afterTime? word == some []
    || match afterDate? word with
      | some [] => true
      | some (c :: time) => (c = 'T' || c = 't') && isTimeOfDate time
      | none => false

def ofWord? (word : List Char) : Option Scalar :=
  let written := String.ofList word
  if written = "true" then some (.flag true)
  else if written = "false" then some (.flag false)
  else if isMoment word then some (.moment written)
  else if isInteger word ∨ isFloat word then some (.number written)
  else none

/-- The scalar that a text starts with. The space between a date and its time is the only one that
a scalar may hold. -/
def ofText? (cs : List Char) : Option (Scalar × List Char) :=
  let word := cs.takeWhile isWordPart
  let rest := cs.dropWhile isWordPart
  let time := rest.tail.takeWhile isWordPart
  if afterDate? word = some [] ∧ rest.head? = some ' ' ∧ time.head?.any Char.isDigit then
    if isTimeOfDate time then
      some (.moment (String.ofList (word ++ ' ' :: time)), rest.tail.dropWhile isWordPart)
    else none
  else (ofWord? word).map fun scalar => (scalar, rest)

end Scalar

end IdlFrontEnd.Toml
