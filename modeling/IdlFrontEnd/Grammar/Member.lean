import IdlFrontEnd.Grammar.TypeExpr

/-!
# Members

`field := type name [= literal] ;`, `constant := const type name = literal ;`,
`method := annotation* [oneway] type name ( [argument (, argument)*] ) [= number] ;` and
`argument := annotation* [in | out | inout] type name`. Annotations before a method or an argument
belong to its type.
-/
namespace IdlFrontEnd.Grammar

def withAnnotations (t : TypeExpr) (before : AnnotationSet) : TypeExpr :=
  t.annotate (t.head.annotations.union before)

def defaultValue : Rule (Option Literal) := do
  if ← accept (.mark .equals) then
    return some (← literal)
  else return none

def field : Rule Field := do
  let first ← current
  let type ← typeExpr
  let name ← identifier
  let default ← defaultValue
  expect (.mark .semicolon)
  return ⟨← spanFrom first, type, name, default⟩

def constant : Rule Constant := do
  let first ← current
  expect (.word "const")
  let type ← typeExpr
  let name ← identifier
  expect (.mark .equals)
  let value ← literal
  expect (.mark .semicolon)
  return ⟨← spanFrom first, type, name, value⟩

def direction : Rule (Option Direction) := do
  match ← token with
  | .word text =>
    match Direction.ofKeyword? text with
    | some d =>
      take
      return some d
    | none => return none
  | _ => return none

def argument : Rule Argument := do
  let first ← current
  let before ← annotations
  let written ← direction
  let type ← typeExpr
  let name ← identifier
  return ⟨← spanFrom first, written, withAnnotations type before, name⟩

def argumentList : Rule (List Argument) := do
  expect (.mark .openParen)
  let arguments ← if (← token) = .mark .closeParen then pure [] else separated argument
  expect (.mark .closeParen)
  return arguments

def methodId : Rule MethodId := do
  if ← accept (.mark .equals) then
    match ← token with
    | .number text =>
      match Text.decimal? text with
      | some value =>
        take
        return .written value
      | none => reject (.badMethodNumber text)
    | _ => expected "method id"
  else return .unset

def method : Rule Method := do
  let first ← current
  let before ← annotations
  let oneway ← accept (.word "oneway")
  let type ← typeExpr
  let name ← identifier
  let arguments ← argumentList
  let id ← methodId
  expect (.mark .semicolon)
  return ⟨← spanFrom first, oneway, first.comments, withAnnotations type before, name, arguments,
    id⟩

def member : Rule Member := do
  if (← token) = .word "const" then return .constant (← constant)
  else return .method (← method)

end IdlFrontEnd.Grammar
