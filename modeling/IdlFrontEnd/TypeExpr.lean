import IdlFrontEnd.Diagnostic

/-!
# Type expressions

A type as a file writes it: a name, perhaps a list of type parameters in angle brackets, perhaps
`[]`. It starts without a canonical name and is given one when the written name is found; a name
once found is never given up. The parts of an expression are itself and the parts of its
parameters, outer ones first and left to right, and every whole-expression property is one of its
parts.
-/
namespace IdlFrontEnd

structure TypeHead where
  location : Location
  written : String
  canonical : Option String
  isArray : Bool
  comments : String
  annotations : AnnotationSet
  /-- What a code generator left here; nothing in the library reads it. -/
  attachment : Option String
  deriving DecidableEq, Repr

structure TypeExpr where
  head : TypeHead
  /-- A list may be written and yet be empty. -/
  params : Option (List TypeExpr)

namespace TypeHead

def fresh (location : Location) (written : String) (isArray : Bool) (comments : String)
    (annotations : AnnotationSet) : TypeHead :=
  ⟨location, written, none, isArray, comments, annotations, none⟩

/-- The canonical name, or the written one as long as there is none. -/
def name (h : TypeHead) : String :=
  h.canonical.getD h.written

def arrayMark (h : TypeHead) : String :=
  if h.isArray then "[]" else ""

/-- An empty name is no name, so finding one changes nothing. -/
def resolve (find : String → Option String) (h : TypeHead) : TypeHead :=
  match h.canonical with
  | some _ => h
  | none => { h with canonical := (find h.written).filter (· ≠ "") }

end TypeHead

namespace TypeExpr

def name (t : TypeExpr) : String := t.head.name

def isResolved (t : TypeExpr) : Bool := t.head.canonical.isSome

def isGeneric (t : TypeExpr) : Bool := t.params.isSome

mutual
/-- The expression and the parts of its parameters, each with its depth below `depth`. -/
def partsFrom (depth : Nat) : TypeExpr → List (Nat × TypeExpr)
  | ⟨h, none⟩ => [(depth, ⟨h, none⟩)]
  | ⟨h, some ps⟩ => (depth, ⟨h, some ps⟩) :: partsOfAll (depth + 1) ps

def partsOfAll (depth : Nat) : List TypeExpr → List (Nat × TypeExpr)
  | [] => []
  | p :: ps => partsFrom depth p ++ partsOfAll depth ps
end

def parts (t : TypeExpr) : List TypeExpr :=
  (partsFrom 0 t).map Prod.snd

mutual
def text : TypeExpr → String
  | ⟨h, none⟩ => h.name ++ h.arrayMark
  | ⟨h, some ps⟩ => h.name ++ "<" ++ String.intercalate "," (texts ps) ++ ">" ++ h.arrayMark

def texts : List TypeExpr → List String
  | [] => []
  | p :: ps => text p :: texts ps
end

/-- The annotations and the type. -/
def signature (t : TypeExpr) : String :=
  t.head.annotations.before t.text

mutual
/-- Gives every part without a canonical name the one that `find` knows for its written name. -/
def resolve (find : String → Option String) : TypeExpr → TypeExpr
  | ⟨h, none⟩ => ⟨h.resolve find, none⟩
  | ⟨h, some ps⟩ => ⟨h.resolve find, some (resolveAll find ps)⟩

def resolveAll (find : String → Option String) : List TypeExpr → List TypeExpr
  | [] => []
  | p :: ps => resolve find p :: resolveAll find ps
end

/-- Whether every part has a canonical name or `find` knows its written one. -/
def isKnown (find : String → Option String) (t : TypeExpr) : Bool :=
  t.parts.all fun p => p.isResolved || (find p.head.written).isSome

def isFullyResolved (t : TypeExpr) : Bool :=
  t.parts.all isResolved

def unresolvedParts (t : TypeExpr) : List TypeExpr :=
  t.parts.filter (!·.isResolved)

def annotate (t : TypeExpr) (annotations : AnnotationSet) : TypeExpr :=
  { t with head := { t.head with annotations } }

def attach (t : TypeExpr) (value : String) : TypeExpr :=
  { t with head := { t.head with attachment := some value } }

/-- The lists and maps that a parameter list may follow, each with the numbers of parameters it
admits. -/
def arityFault? (t : TypeExpr) : Option Cause :=
  t.params.bind fun ps =>
    if t.name = "List" ∨ t.name = "java.util.List" then
      if ps.length ≤ 1 then none else some (.listArity t.text)
    else if t.name = "Map" ∨ t.name = "java.util.Map" then
      if ps.length = 0 ∨ ps.length = 2 then none else some (.mapArity t.text)
    else some (.notGeneric t.name t.text)

/-- One diagnostic for each part with a wrong number of parameters. -/
def arityNotes (t : TypeExpr) : List Diagnostic :=
  t.parts.filterMap fun p => p.arityFault?.map (.atPlace p.head.location)

end TypeExpr

end IdlFrontEnd
