import IdlFrontEnd.Literal
import IdlFrontEnd.Text.Lines
import IdlFrontEnd.TypeExpr

/-!
# Declarations

A declaration file defines interfaces and parcelables. An interface has methods and constants; a
parcelable is either structured, with its fields written in the file, or only named. What follows
are the values themselves and the text each is shown with.
-/
namespace IdlFrontEnd

/-- A dotted name as written, with the comments before it. -/
structure QualifiedName where
  location : Location
  terms : List String
  comments : String
  deriving DecidableEq, Repr

namespace QualifiedName

def dotName (n : QualifiedName) : String := Text.joinDots n.terms

def colonName (n : QualifiedName) : String := String.intercalate "::" n.terms

end QualifiedName

structure Field where
  location : Location
  type : TypeExpr
  name : String
  default : Option Literal

namespace Field

def text (f : Field) : String :=
  f.type.text ++ " " ++ f.name ++ ((f.default.map fun v => " = " ++ v.value.text).getD "")

def signature (f : Field) : String :=
  f.type.signature ++ " " ++ f.name

end Field

/-- Where the data of an argument flows: to the callee, back from it, or both ways. -/
inductive Direction where
  | input | output | both
  deriving DecidableEq, Repr

namespace Direction

def keyword : Direction → String
  | .input => "in"
  | .output => "out"
  | .both => "inout"

def ofKeyword? (word : String) : Option Direction :=
  [.input, .output, .both].find? (·.keyword = word)

theorem ofKeyword?_eq_some_iff {word : String} {d : Direction} :
    ofKeyword? word = some d ↔ word = d.keyword := by
  constructor
  · intro h
    unfold ofKeyword? at h
    have same := List.find?_some h
    exact (of_decide_eq_true same).symm
  · rintro rfl
    cases d <;> rfl

/-- One bit for each way. -/
def bits : Direction → Nat
  | .input => 1
  | .output => 2
  | .both => 3

def isIn (d : Direction) : Bool := d != .output

def isOut (d : Direction) : Bool := d != .input

end Direction

structure Argument where
  location : Location
  /-- The direction, if one is written. -/
  written : Option Direction
  type : TypeExpr
  name : String

namespace Argument

/-- An argument without a direction is an input. -/
def direction (a : Argument) : Direction := a.written.getD .input

def isIn (a : Argument) : Bool := a.direction.isIn

def isOut (a : Argument) : Bool := a.direction.isOut

/-- Type and name, without the direction. -/
def variableText (a : Argument) : String := a.type.text ++ " " ++ a.name

def text (a : Argument) : String :=
  ((a.written.map fun d => d.keyword ++ " ").getD "") ++ a.variableText

def signature (a : Argument) : String := a.type.signature ++ " " ++ a.name

end Argument

/-- The number of a method on the wire: not known yet, written in the file, or given out by the
numbering of the interface. -/
inductive MethodId where
  | unset | written (value : Int) | assigned (value : Int)
  deriving DecidableEq, Repr

namespace MethodId

def value? : MethodId → Option Int
  | .unset => none
  | .written value => some value
  | .assigned value => some value

def written? : MethodId → Option Int
  | .written value => some value
  | _ => none

/-- A new number for the method; that one was written in the file is not forgotten. -/
def set (id : MethodId) (value : Int) : MethodId :=
  match id with
  | .written _ => .written value
  | _ => .assigned value

end MethodId

structure Method where
  location : Location
  oneway : Bool
  comments : String
  returnType : TypeExpr
  name : String
  arguments : List Argument
  id : MethodId

namespace Method

def inputs (m : Method) : List Argument := m.arguments.filter Argument.isIn

def outputs (m : Method) : List Argument := m.arguments.filter Argument.isOut

private def positions (p : Argument → Bool) (m : Method) : List Nat :=
  (m.arguments.zipIdx.filter fun (a, _) => p a).map Prod.snd

def inputPositions (m : Method) : List Nat := positions Argument.isIn m

def outputPositions (m : Method) : List Nat := positions Argument.isOut m

def setId (m : Method) (value : Int) : Method := { m with id := m.id.set value }

/-- Name and argument types. -/
def signature (m : Method) : String :=
  m.name ++ "(" ++ String.intercalate ", " (m.arguments.map fun a => a.type.text) ++ ")"

/-- The method as a file would write it, without the semicolon. A number is shown only if the file
wrote one. -/
def text (m : Method) : String :=
  (if m.oneway then "oneway " else "") ++ m.returnType.signature ++ " " ++ m.name ++ "("
    ++ String.intercalate ", " (m.arguments.map Argument.text) ++ ")"
    ++ ((m.id.written?.map fun n => " = " ++ toString n).getD "")

/-- The types of a method in the order of writing. -/
def types (m : Method) : List TypeExpr := m.returnType :: m.arguments.map Argument.type

def mapTypes (f : TypeExpr → TypeExpr) (m : Method) : Method :=
  { m with
    returnType := f m.returnType
    arguments := m.arguments.map fun a => { a with type := f a.type } }

end Method

structure Constant where
  location : Location
  type : TypeExpr
  name : String
  value : Literal

def Constant.text (c : Constant) : String :=
  "const " ++ c.type.signature ++ " " ++ c.name ++ " = " ++ c.value.value.text

inductive Member where
  | method (m : Method) | constant (c : Constant)

namespace Member

def method? : Member → Option Method
  | .method m => some m
  | .constant _ => none

def constant? : Member → Option Constant
  | .method _ => none
  | .constant c => some c

def location : Member → Location
  | .method m => m.location
  | .constant c => c.location

end Member

inductive Kind where
  | parcelable | structuredParcelable | interface
  deriving DecidableEq, Repr

namespace Kind

def keyword : Kind → String
  | .parcelable => "parcelable"
  | .structuredParcelable => "structured_parcelable"
  | .interface => "interface"

def ofKeyword? (word : String) : Option Kind :=
  [.parcelable, .structuredParcelable, .interface].find? (·.keyword = word)

end Kind

/-- The name of a type seen from outside its package. -/
def canonicalName (package : List String) (name : String) : String :=
  if package.isEmpty then name else Text.joinDots package ++ "." ++ name

structure Header where
  location : Location
  name : String
  comments : String
  package : List String
  annotations : AnnotationSet
  /-- What a code generator left here; nothing in the library reads it. -/
  attachment : Option String
  deriving DecidableEq, Repr

inductive Body where
  | parcelable (name : QualifiedName) (cppHeader : String)
  | structured (name : QualifiedName) (fields : List Field)
  | interface (oneway : Bool) (methods : List Method) (constants : List Constant)

structure Declaration where
  header : Header
  body : Body

namespace Declaration

private def named (location : Location) (name : QualifiedName) (package : List String) : Header :=
  ⟨location, name.dotName, name.comments, package, .empty, none⟩

def ofParcelable (location : Location) (name : QualifiedName) (package : List String)
    (cppHeader : String) : Declaration :=
  ⟨named location name package, .parcelable name cppHeader⟩

def ofFields (location : Location) (name : QualifiedName) (package : List String)
    (fields : List Field) : Declaration :=
  ⟨named location name package, .structured name fields⟩

/-- Methods and constants keep their order, each among its own kind. A method of a oneway interface
is oneway. -/
def ofMembers (location : Location) (name comments : String) (oneway : Bool)
    (members : List Member) (package : List String) : Declaration :=
  let methods := (members.filterMap Member.method?).map fun m =>
    { m with oneway := m.oneway || oneway }
  ⟨⟨location, name, comments, package, .empty, none⟩,
    .interface oneway methods (members.filterMap Member.constant?)⟩

def name (d : Declaration) : String := d.header.name

def location (d : Declaration) : Location := d.header.location

def package (d : Declaration) : String := Text.joinDots d.header.package

def canonical (d : Declaration) : String := canonicalName d.header.package d.name

def kind (d : Declaration) : Kind :=
  match d.body with
  | .parcelable .. => .parcelable
  | .structured .. => .structuredParcelable
  | .interface .. => .interface

def methods (d : Declaration) : List Method :=
  match d.body with
  | .interface _ methods _ => methods
  | _ => []

def withMethods (d : Declaration) (methods : List Method) : Declaration :=
  match d.body with
  | .interface oneway _ constants => { d with body := .interface oneway methods constants }
  | _ => d

def annotate (d : Declaration) (annotations : AnnotationSet) : Declaration :=
  { d with header := { d.header with annotations } }

def attach (d : Declaration) (value : String) : Declaration :=
  { d with header := { d.header with attachment := some value } }

/-- The types in the order of writing; type parameters are parts of these. -/
def types (d : Declaration) : List TypeExpr :=
  match d.body with
  | .parcelable .. => []
  | .structured _ fields => fields.map Field.type
  | .interface _ methods constants => methods.flatMap Method.types ++ constants.map Constant.type

def mapTypes (f : TypeExpr → TypeExpr) (d : Declaration) : Declaration :=
  match d.body with
  | .parcelable .. => d
  | .structured name fields =>
    { d with body := .structured name (fields.map fun v => { v with type := f v.type }) }
  | .interface oneway methods constants =>
    { d with body := .interface oneway (methods.map (Method.mapTypes f))
                       (constants.map fun c => { c with type := f c.type }) }

end Declaration

/-- A statement that makes a class of another file known. -/
structure ImportStatement where
  location : Location
  className : String
  deriving DecidableEq, Repr

/-- What one file holds. -/
structure Document where
  types : List Declaration
  imports : List ImportStatement

namespace Document

def typeExprs (d : Document) : List TypeExpr := d.types.flatMap Declaration.types

def mapTypes (f : TypeExpr → TypeExpr) (d : Document) : Document :=
  { d with types := d.types.map (Declaration.mapTypes f) }

end Document

end IdlFrontEnd
