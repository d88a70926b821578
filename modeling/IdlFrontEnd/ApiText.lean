import IdlFrontEnd.Declaration.Basic
import IdlFrontEnd.Text.Layout

/-!
# Declarations as text

A declaration is written back in the language it was read from, without its package, its header
file and its comments. A package is a block around its declarations. Writing into a layout cannot
fail, so these functions give the layout alone.
-/
namespace IdlFrontEnd

namespace Declaration

def fieldLine (f : Field) : String :=
  f.signature ++ ((f.default.map fun v => " = " ++ v.value.text).getD "") ++ ";"

/-- Writes lines one level deeper, between a line that opens the block and a brace. -/
def writeBlock (l : Layout) (opening : String) (lines : List String) : Layout :=
  let inside := (l.writeLine (opening ++ " \x7b")).indent
  (lines.foldl Layout.writeLine inside).dedent.writeLine "\x7d"

/-- The first line of the text and, for what has a body, the lines of the body. -/
def apiParts (d : Declaration) : String × Option (List String) :=
  match d.body with
  | .parcelable .. => ("parcelable " ++ d.name, none)
  | .structured _ fields => ("parcelable " ++ d.name, some (fields.map fieldLine))
  | .interface oneway methods constants =>
    ((if oneway then "oneway " else "") ++ "interface " ++ d.name,
      some (methods.map (·.text ++ ";") ++ constants.map (·.text ++ ";")))

def writeApi (d : Declaration) (l : Layout) : Layout :=
  let (opening, lines?) := d.apiParts
  let full := d.header.annotations.before opening
  match lines? with
  | none => l.writeLine (full ++ ";")
  | some lines => writeBlock l full lines

end Declaration

/-- The block of a package, with a blank line after each of its declarations. -/
def writePackage (l : Layout) (package : String) (types : List Declaration) : Layout :=
  let inside := (l.writeLine ("package " ++ package ++ " \x7b")).indent
  (types.foldl (fun l d => (d.writeApi l).writeLine "") inside).dedent.writeLine "\x7d"

end IdlFrontEnd
