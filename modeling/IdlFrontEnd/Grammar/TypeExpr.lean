import IdlFrontEnd.Declaration.Basic
import IdlFrontEnd.Grammar.Reading

/-!
# Names, annotations, types and literals

`name := word (. word)*`, `annotation := @ word`, `type := annotation* name [< type (, type)* >]
[ [ ] ]`. An unknown annotation and a malformed literal are reported without a rejection.
-/
namespace IdlFrontEnd.Grammar

/-- The words that name nothing. -/
def keywords : List String :=
  ["package", "import", "parcelable", "interface", "oneway", "const", "in", "out", "inout",
   "cpp_header"]

def identifier : Rule String := do
  match ← token with
  | .word text =>
    if text ∈ keywords then expected "identifier"
    else
      take
      return text
  | _ => expected "identifier"

/-- A dotted name that carries these comments. -/
def qualifiedNameWith (comments : String) : Rule QualifiedName := do
  let first ← current
  let term ← identifier
  let terms ← manyWhile (· = .mark .dot) do
    take
    identifier
  return ⟨← spanFrom first, term :: terms, comments⟩

def qualifiedName : Rule QualifiedName := do
  qualifiedNameWith (← current).comments

/-- The annotation of this name, or a report that there is none. -/
def annotationNamed (location : Location) (name : String) : Option Annotation × List Diagnostic :=
  match Annotation.ofName? name with
  | some a => (some a, [])
  | none => (none, [.atPlace location (.unannotationNamed name)])

/-- The rule for an annotation, which starts at its `@`. -/
def annotation : Rule (Option Annotation) := do
  let first ← current
  take
  match ← token with
  | .word name =>
    take
    reported (annotationNamed (← spanFrom first) name)
  | _ => expected "annotation name"

def annotations : Rule AnnotationSet := do
  let found ← manyWhile (· = .mark .at) annotation
  return .ofList (found.filterMap id)

def typeParams (type : Rule TypeExpr) : Rule (Option (List TypeExpr)) := do
  if ← accept (.mark .less) then
    let params ← separated type
    expect (.mark .greater)
    return some params
  else return none

def arrayMark : Rule Bool := do
  if ← accept (.mark .openBracket) then
    expect (.mark .closeBracket)
    return true
  else return false

/-- A type with fewer than `depth` types nested in one another. -/
def typeWithin : Nat → Rule TypeExpr
  | 0 => expected "identifier"
  | depth + 1 => do
    let first ← current
    let annotations ← annotations
    let name ← qualifiedName
    let params ← typeParams (typeWithin depth)
    let isArray ← arrayMark
    let head := TypeHead.fresh (← spanFrom first) name.dotName isArray first.comments annotations
    return ⟨head, params⟩

/-- Every level of nesting takes a lexeme, so their number bounds the depth. -/
def typeExpr : Rule TypeExpr := fun r =>
  typeWithin r.rest.length r

def literal : Rule Literal := do
  let lexeme ← current
  match lexeme.token with
  | .number text =>
    take
    reported (Literal.ofNumber lexeme.location text)
  | .string quoted =>
    take
    reported (Literal.ofString lexeme.location quoted)
  | _ => expected "constant value"

end IdlFrontEnd.Grammar
