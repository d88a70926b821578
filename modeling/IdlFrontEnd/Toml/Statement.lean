import IdlFrontEnd.Toml.Value

/-!
# Statements of a settings file

A settings file in TOML is a list of statements, one a line: the header of a table, or a path with
its value. Lines without a statement may hold a comment. Settings have no arrays of tables, so a
file with the header of one is refused as if it were malformed.
-/
namespace IdlFrontEnd.Toml

inductive Statement where
  | header (path : List String) | assignment (path : List String) (value : Value)

namespace Statement

/-- The statement that a line starts with. -/
def first? : List Char → Option (Statement × List Char)
  | '[' :: cs => do
    let (path, ']' :: rest) ← path? cs | none
    return (.header path, rest)
  | cs => do
    let (path, '=' :: rest) ← path? cs | none
    let (value, rest) ← Value.ofText? (skipBlanks rest)
    return (.assignment path value, rest)

/-- The statements of a text of fewer than `size` lines. -/
def allWithin? : Nat → List Char → Option (List Statement)
  | 0, _ => none
  | size + 1, cs =>
    if (skipBlanks cs).isEmpty then some []
    else match afterLine? cs with
      | some rest => allWithin? size rest
      | none => do
        let (statement, rest) ← first? (skipBlanks cs)
        let others ← allWithin? size (← afterLine? rest)
        return statement :: others

private def withoutMark : List Char → List Char
  | '\ufeff' :: cs => cs
  | cs => cs

/-- The statements of a file. A byte order mark before them is left out. -/
def ofText? (text : String) : Option (List Statement) :=
  let cs := withoutMark text.toList
  allWithin? (cs.length + 1) cs

end Statement

end IdlFrontEnd.Toml
