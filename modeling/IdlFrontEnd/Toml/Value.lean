import IdlFrontEnd.Toml.Key
import IdlFrontEnd.Toml.Scalar

/-!
# Values of a settings file

A value is a scalar, a quoted text, a list or an inline table. A list may stretch over several
lines and may have a comma after its last item; a table is written on one line and may not. The
fields of a table are named by paths. Two of its paths may share their first keys, but none is the
start of another, so no field is set twice and none is both a value and a table.
-/
namespace IdlFrontEnd.Toml

inductive Value where
  | scalar (value : Scalar) | text (value : String)
  | list (items : List Value) | table (fields : List (List String × Value))

namespace Value

/-- Whether a field of one path rules out a field of the other. -/
def clash (p q : List String) : Bool := p.isPrefixOf q || q.isPrefixOf p

mutual
/-- A value with what follows it, for a text of fewer than `size` characters. At most `depth` lists
and tables are nested in one another. -/
def within? (size depth : Nat) (cs : List Char) : Option (Value × List Char) :=
  match size, depth, cs with
  | size + 1, depth + 1, '[' :: rest =>
    (itemsWithin? size depth rest).map fun (items, rest) => (.list items, rest)
  | size + 1, depth + 1, '\x7b' :: rest =>
    match skipBlanks rest with
    | '\x7d' :: rest => some (.table [], rest)
    | rest => (fieldsWithin? size depth rest).map fun (fields, rest) => (.table fields, rest)
  | _, _, cs =>
    match Quoted.ofText? cs with
    | some (quoted, rest) => some (.text quoted, rest)
    | none => (Scalar.ofText? cs).map fun (single, rest) => (.scalar single, rest)

/-- The items of a list that are left, up to its end. -/
def itemsWithin? (size depth : Nat) (cs : List Char) : Option (List Value × List Char) :=
  match size, skipGap false cs with
  | 0, _ => none
  | _ + 1, ']' :: rest => some ([], rest)
  | size + 1, cs => do
    let (first, rest) ← within? size depth cs
    match skipGap false rest with
    | ']' :: rest => return ([first], rest)
    | ',' :: rest =>
      let (others, rest) ← itemsWithin? size depth rest
      return (first :: others, rest)
    | _ => none

/-- The fields of a table that are left, up to its end. -/
def fieldsWithin? (size depth : Nat) (cs : List Char) :
    Option (List (List String × Value) × List Char) :=
  match size with
  | 0 => none
  | size + 1 => do
    let (path, '=' :: rest) ← path? cs | none
    let (value, rest) ← within? size depth (skipBlanks rest)
    match skipBlanks rest with
    | '\x7d' :: rest => return ([(path, value)], rest)
    | ',' :: rest =>
      let (others, rest) ← fieldsWithin? size depth rest
      if others.any fun (other, _) => clash path other then none
      else return ((path, value) :: others, rest)
    | _ => none
end

/-- The value that a text starts with. -/
def ofText? (cs : List Char) : Option (Value × List Char) :=
  within? (cs.length + 1) (depthLimit - 1) cs

end Value

end IdlFrontEnd.Toml
