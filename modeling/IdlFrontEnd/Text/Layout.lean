/-!
# Indented text

A layout is a text under construction with the indentation now in force. Two spaces for each level
go in front of every line that is begun with something other than its line feed, so blank lines stay
blank. Characters are taken one by one, so it does not matter how a text is cut up for writing.

The program writes through an interface whose calls may fail. A layout is a text in memory: its own
writing always succeeds and so does all that only passes on what it answers, which is why none of
the writers here has a result for failure.
-/
namespace IdlFrontEnd

structure Layout where
  text : String
  depth : Nat
  atLineStart : Bool
  deriving DecidableEq, Repr

namespace Layout

def empty : Layout := ⟨"", 0, true⟩

def indent (l : Layout) : Layout := { l with depth := l.depth + 1 }

/-- The outermost level cannot be left. -/
def dedent (l : Layout) : Layout := { l with depth := l.depth - 1 }

def margin (l : Layout) : String :=
  String.ofList (List.replicate (2 * l.depth) ' ')

def put (l : Layout) (c : Char) : Layout :=
  let start := if l.atLineStart && c ≠ '\n' then l.text ++ l.margin else l.text
  { l with text := start.push c, atLineStart := c = '\n' }

def write (l : Layout) (s : String) : Layout :=
  s.toList.foldl put l

def writeLine (l : Layout) (s : String) : Layout :=
  l.write (s ++ "\n")

end Layout

end IdlFrontEnd
