import IdlFrontEnd.Check.Types

/-!
# Checking constants

The constants of an interface have different names. A constant is an `int` or a `String` and its
value is of its type. A value that could not be read was reported where it stands and only fails.
-/
namespace IdlFrontEnd

namespace Constant

/-- The types that constants have. -/
def typeNames : List String := ["int", "String"]

def checkValue (c : Constant) : Verdict :=
  let type := c.type.text
  if c.value.value = .invalid then .done false []
  else if type ∉ typeNames then .ofNotes [.atPlace c.location (.constantType c.name type)]
  else if c.value.value.typeName ≠ type then
    .ofNotes [.atPlace c.location (.constantMismatch c.name type c.value.value.typeName)]
  else .pass

def check (c : Constant) : Verdict :=
  c.type.check.ifPassed c.checkValue

def checkName (c : Constant) (before : List Constant) : Verdict :=
  .ofNotes <|
    if before.any (·.name = c.name) then [.atPlace c.location (.repeatedConstant c.name)] else []

def checkAll (before : List Constant) : List Constant → Verdict
  | [] => .pass
  | c :: cs =>
    ((c.checkName before).andThen c.check).andThen (checkAll (before ++ [c]) cs)

end Constant

def Declaration.checkConstants (d : Declaration) : Verdict :=
  match d.body with
  | .interface _ _ constants => Constant.checkAll [] constants
  | _ => .pass

end IdlFrontEnd
