import IdlFrontEnd.Annotation
import IdlFrontEnd.Json
import IdlFrontEnd.Proofs.Token.Written
import IdlFrontEnd.Text.Lines

/-!
# The schema of exported units

A schema says which values a place may hold. An object has one of the shapes that its name stands
for, and no other of them: every required key, no key twice, and no key besides the required and the
optional ones. Validation goes down the value, so a name may stand in its own shapes, as the name
for types does.
-/
namespace IdlFrontEnd.Schema

/-- The objects of a unit. -/
inductive Name where
  | unit | imported | type | value | field | constant | argument | method | declaration
  deriving DecidableEq, Repr

/-- What a place admits. -/
inductive Rule where
  | text (test : String → Bool)
  | textOrNull
  | boolean
  | integer (test : Int → Bool)
  /-- Some of these texts, none of them twice. -/
  | distinct (allowed : List String)
  | list (least : Nat) (items : Rule)
  | object (name : Name)

structure Shape where
  required : List (String × Rule)
  optional : List (String × Rule)

/-- What is said for a key. -/
def ruleFor (key : String) : List (String × Rule) → Option Rule
  | [] => none
  | (other, rule) :: rules => if key = other then some rule else ruleFor key rules

namespace Shape

def rule? (s : Shape) (key : String) : Option Rule := ruleFor key (s.required ++ s.optional)

/-- These are the keys of an object of this shape. -/
def hasKeys (s : Shape) (keys : List String) : Bool :=
  keys.Nodup && s.required.all fun (key, _) => keys.contains key

end Shape

/-! ## Texts -/

/-- Identifiers with dots between them. -/
def isQualified (text : String) : Bool := (Text.dotted text).all Text.isIdentifier

def isPackage (text : String) : Bool := text.isEmpty || isQualified text

def isNumeral (text : String) : Bool := !text.isEmpty && text.toList.all Piece.isDigit

/-- Two numerals with a dot between them. -/
def isVersion (text : String) : Bool :=
  match Text.dotted text with
  | [major, minor] => isNumeral major && isNumeral minor
  | _ => false

def exactly (text : String) : Rule := .text (· = text)

def anyText : Rule := .text fun _ => true

def qualified : Rule := .text isQualified

/-! ## Shapes -/

def annotations : Rule := .distinct <| Annotation.all.map Annotation.name

/-- What all declarations have, of whatever kind. -/
def declared (kind : String) (name : Rule) : List (String × Rule) :=
  [("annotations", annotations), ("canonical_name", qualified), ("comments", anyText),
   ("kind", exactly kind), ("name", name), ("package", .text isPackage)]

def shapes : Name → List Shape
  | .unit =>
    [⟨[("format", exactly "aidl-unit"), ("imports", .list 0 (.object .imported)),
       ("type", .object .declaration), ("version", .text isVersion)], []⟩]
  | .imported =>
    [⟨[("filename", .textOrNull), ("needed_class", qualified), ("types", .list 0 qualified)], []⟩]
  | .type =>
    [⟨[("annotations", annotations), ("array", .boolean), ("name", qualified)],
      [("parameters", .list 1 (.object .type))]⟩]
  | .value =>
    [⟨[("kind", exactly "int"), ("value", .integer fun _ => true)], []⟩,
     ⟨[("kind", exactly "string"), ("value", anyText)], []⟩,
     ⟨[("kind", exactly "error")], []⟩]
  | .field => [⟨[("name", anyText), ("type", .object .type)], [("default", .object .value)]⟩]
  | .constant =>
    [⟨[("name", anyText), ("type", .object .type), ("value", .object .value)], []⟩]
  | .argument =>
    [⟨[("direction", .text fun text => text ∈ ["in", "out", "inout"]), ("name", anyText),
       ("type", .object .type)], []⟩]
  | .method =>
    [⟨[("arguments", .list 0 (.object .argument)), ("comments", anyText), ("name", anyText),
       ("oneway", .boolean), ("return_type", .object .type)],
      [("id", .integer fun n => 0 ≤ n ∧ n ≤ 16777214)]⟩]
  | .declaration =>
    [⟨declared "parcelable" qualified ++ [("cpp_header", anyText)], []⟩,
     ⟨declared "structured_parcelable" qualified ++ [("fields", .list 0 (.object .field))], []⟩,
     ⟨declared "interface" (.text Text.isIdentifier) ++
       [("constants", .list 0 (.object .constant)), ("methods", .list 0 (.object .method)),
        ("oneway", .boolean)], []⟩]

/-! ## Validation -/

/-- The values of these items if all of them are strings. -/
def strings? (items : List Json) : Option (List String) :=
  items.mapM fun
    | .string s => some s
    | _ => none

mutual
def admits : Json → Rule → Bool
  | .string s, .text test => test s
  | .string _, .textOrNull => true
  | .null, .textOrNull => true
  | .bool _, .boolean => true
  | .int n, .integer test => test n
  | .list items, .distinct allowed =>
    (strings? items).any fun values => values.Nodup && values.all (allowed.contains ·)
  | .list items, .list least rule => least ≤ items.length && admitsAll items rule
  | .object fields, .object name =>
    (shapes name).countP (fun s => s.hasKeys (fields.map Prod.fst) && admitsFields fields s) = 1
  | _, _ => false

def admitsAll : List Json → Rule → Bool
  | [], _ => true
  | item :: items, rule => admits item rule && admitsAll items rule

/-- Every field has a key of the shape and a value that the shape admits for it. -/
def admitsFields : List (String × Json) → Shape → Bool
  | [], _ => true
  | (key, value) :: fields, s => (s.rule? key).any (admits value ·) && admitsFields fields s
end

@[simp] theorem admits_text (s : String) (test : String → Bool) :
    admits (.string s) (.text test) = test s := by rw [admits]

@[simp] theorem admits_boolean (b : Bool) : admits (.bool b) .boolean = true := by rw [admits]

@[simp] theorem admits_integer (n : Int) (test : Int → Bool) :
    admits (.int n) (.integer test) = test n := by rw [admits]

@[simp] theorem admits_list (items : List Json) (least : Nat) (rule : Rule) :
    admits (.list items) (.list least rule) =
      (decide (least ≤ items.length) && items.all (admits · rule)) := by
  rw [admits]
  congr 1
  induction items with
  | nil => rw [admitsAll, List.all_nil]
  | cons item items ih => rw [admitsAll, ih, List.all_cons]

@[simp] theorem admits_object (fields : List (String × Json)) (name : Name) :
    admits (.object fields) (.object name) =
      decide ((shapes name).countP
        (fun s => s.hasKeys (fields.map Prod.fst) && admitsFields fields s) = 1) := by rw [admits]

@[simp] theorem admitsFields_nil (s : Shape) : admitsFields [] s = true := by rw [admitsFields]

@[simp] theorem admitsFields_cons (key : String) (value : Json) (fields : List (String × Json))
    (s : Shape) :
    admitsFields ((key, value) :: fields) s =
      ((s.rule? key).any (admits value ·) && admitsFields fields s) := by rw [admitsFields]

attribute [simp] shapes Shape.hasKeys Shape.rule? ruleFor

end IdlFrontEnd.Schema
