/-!
# Locations

A point is a line and a column, both counted from one, in characters. A location is a span of a
file from the point of its first character to the point just after its last one. Locations are only
shown; no decision of the library depends on one.

Lines and columns are numbers of 32 bits. Behind the largest one counting starts over at zero, or
the program stops if it was built to check its arithmetic.
-/
namespace IdlFrontEnd

structure Point where
  line : UInt32
  column : UInt32
  deriving DecidableEq, Repr

namespace Point

/-- A number of 32 bits is shown as the natural number it stands for. -/
instance : CoeOut UInt32 Nat := ⟨UInt32.toNat⟩

/-- Of a natural number the last 32 bits are kept. -/
instance : CoeTail Nat UInt32 := ⟨UInt32.ofNat⟩

/-- The point after a character: a line feed opens the next line. -/
def after (p : Point) (c : Char) : Point :=
  if c = '\n' then ⟨p.line + 1, 1⟩ else ⟨p.line, p.column + 1⟩

def afterAll (p : Point) (cs : List Char) : Point :=
  cs.foldl after p

/-- The line or the column is the largest number and would have to be counted on. -/
def isLast (p : Point) (c : Char) : Bool :=
  if c = '\n' then p.line + 1 = 0 else p.column + 1 = 0

/-- Counting starts over somewhere in these characters. -/
def startsOver (p : Point) : List Char → Bool
  | [] => false
  | c :: cs => p.isLast c || (p.after c).startsOver cs

end Point

structure Location where
  file : String
  start : Point
  stop : Point
  deriving DecidableEq, Repr

namespace Location

/-- The place of what no file holds. -/
def nowhere : Location := ⟨"nowhere", ⟨0, 0⟩, ⟨0, 0⟩⟩

/-- From the start of the first location to the end of the second. -/
def upTo (first last : Location) : Location :=
  { first with stop := last.stop }

/-- `file:line.column-column`, with the line of the end only where it differs. -/
def text (l : Location) : String :=
  let stopLine := if l.start.line = l.stop.line then "" else toString l.stop.line ++ "."
  l.file ++ ":" ++ toString l.start.line ++ "." ++ toString l.start.column ++ "-" ++ stopLine
    ++ toString l.stop.column

end Location

end IdlFrontEnd
