import IdlFrontEnd.Diagnostic

/-!
# JSON values and their text

Numbers are integers. An object keeps its fields in the order they are given in, and every object
that the library makes is given in ascending order of keys. The compact text has no spaces; the
indented one puts every item and field on a line of its own, except that an empty list or object
stays on one line. In a string, only quotes, backslashes and control characters are escaped.
-/
namespace IdlFrontEnd

inductive Json where
  | null
  | bool (value : Bool)
  | int (value : Int)
  | string (value : String)
  | list (items : List Json)
  | object (fields : List (String × Json))

namespace Json

def strings (values : List String) : Json := .list (values.map .string)

def optional {α : Type} (f : α → Json) : Option α → Json
  | none => .null
  | some value => f value

/-- The escapes that have a letter of their own. -/
def shortEscapes : List (Char × Char) :=
  [('"', '"'), ('\\', '\\'), ('\x08', 'b'), ('\x0c', 'f'), ('\n', 'n'), ('\r', 'r'), ('\t', 't')]

private def hexDigit (n : Nat) : Char := (Nat.toDigits 16 (n % 16)).headD '0'

def escape (c : Char) : List Char :=
  match shortEscapes.lookup c with
  | some letter => ['\\', letter]
  | none =>
    if c.toNat < 0x20 then
      ['\\', 'u', '0', '0', hexDigit (c.toNat / 16), hexDigit c.toNat]
    else [c]

def quote (s : String) : String :=
  String.ofList ('"' :: s.toList.flatMap escape ++ ['"'])

private def atom : Json → String
  | .bool true => "true"
  | .bool false => "false"
  | .int n => toString n
  | .string s => quote s
  | _ => "null"

mutual
def compact : Json → String
  | .list items => "[" ++ String.intercalate "," (compactItems items) ++ "]"
  | .object fields => "\x7b" ++ String.intercalate "," (compactFields fields) ++ "\x7d"
  | value => atom value

def compactItems : List Json → List String
  | [] => []
  | item :: items => compact item :: compactItems items

def compactFields : List (String × Json) → List String
  | [] => []
  | (key, value) :: fields => (quote key ++ ":" ++ compact value) :: compactFields fields
end

/-- Lines between an opening and a closing mark, one level deeper than these. -/
private def enclose (opening closing : String) (depth : Nat) (lines : List String) : String :=
  let margin (n : Nat) := String.ofList (List.replicate (2 * n) ' ')
  if lines.isEmpty then opening ++ closing
  else
    opening ++ "\n" ++ String.intercalate ",\n" (lines.map (margin (depth + 1) ++ ·)) ++ "\n"
      ++ margin depth ++ closing

mutual
def indented (depth : Nat) : Json → String
  | .list items => enclose "[" "]" depth (indentedItems (depth + 1) items)
  | .object fields => enclose "\x7b" "\x7d" depth (indentedFields (depth + 1) fields)
  | value => atom value

def indentedItems (depth : Nat) : List Json → List String
  | [] => []
  | item :: items => indented depth item :: indentedItems depth items

def indentedFields (depth : Nat) : List (String × Json) → List String
  | [] => []
  | (key, value) :: fields =>
    (quote key ++ ": " ++ indented depth value) :: indentedFields depth fields
end

def pretty (value : Json) : String := indented 0 value

end Json

/-- Every field is there; a missing site is null. -/
def Diagnostic.json (d : Diagnostic) : Json :=
  .object
    [("message", .string d.message), ("severity", .string d.severity.name),
     ("site", .optional .string d.site.text?)]

/-- A missing site is left out. -/
def Diagnostic.sparseJson (d : Diagnostic) : Json :=
  .object <|
    [("message", .string d.message), ("severity", .string d.severity.name)]
      ++ (d.site.text?.map fun site => ("site", .string site)).toList

end IdlFrontEnd
