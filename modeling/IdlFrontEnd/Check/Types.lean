import IdlFrontEnd.Check.Verdict
import IdlFrontEnd.Registry

/-!
# Checking types

Only lists and maps take type parameters, and only so many. An argument whose type can bring data
back says in which direction it goes, one whose type cannot is an input, and its name leaves the
generated code alone. A oneway method sends nothing back. Methods have different names. Types are
checked once they are resolved.
-/
namespace IdlFrontEnd

namespace TypeExpr

def unresolvedFault (t : TypeExpr) : Fatal := ⟨.place t.head.location, .checkedUnresolved t.text⟩

/-- The rule for the parameters that the type itself takes. -/
def checkArity (t : TypeExpr) : Verdict :=
  .ofNotes (t.arityFault?.map (.atPlace t.head.location)).toList

mutual
/-- A type is only checked if all of it is resolved. Its own parameters are counted before each of
them is checked like any other type. -/
def check : TypeExpr → Verdict
  | ⟨h, none⟩ => if isFullyResolved ⟨h, none⟩ then .pass else .fault (unresolvedFault ⟨h, none⟩)
  | ⟨h, some ps⟩ =>
    if isFullyResolved ⟨h, some ps⟩ then (checkArity ⟨h, some ps⟩).andThen (checkEach ps)
    else .fault (unresolvedFault ⟨h, some ps⟩)

def checkEach : List TypeExpr → Verdict
  | [] => .pass
  | p :: ps => (check p).andThen (checkEach ps)
end

end TypeExpr

namespace Argument

/-- Words of the generated code and of the language that name no argument. -/
def reservedWords : List String :=
  ["abstract", "assert", "boolean", "break", "byte", "case", "catch", "char", "class", "const",
   "continue", "default", "do", "double", "else", "enum", "extends", "final", "finally", "float",
   "for", "goto", "if", "implements", "import", "instanceof", "int", "interface", "long",
   "native", "new", "package", "private", "protected", "public", "return", "short", "static",
   "strictfp", "super", "switch", "synchronized", "this", "throw", "throws", "transient", "try",
   "void", "volatile", "while", "true", "false", "null"]

/-- The first rule that an argument of a valid type breaks. -/
def fault? (a : Argument) (g : Registry) : Option ArgumentFault :=
  if a.written.isNone ∧ g.canBeOut a.type then some (.directionMissing a.type.text)
  else if a.direction ≠ .input ∧ ¬ g.canBeOut a.type then some (.mustBeInput a.text)
  else if a.name ∈ reservedWords then some .reservedWord
  else if Text.startsWith "_aidl" a.name then some .reservedStart
  else none

/-- The rules for the argument at `index`, counted from one. -/
def check (a : Argument) (g : Registry) (index : Nat) : Verdict :=
  a.type.check.ifPassed <| .ofNotes <|
    ((a.fault? g).map fun f => Diagnostic.atPlace a.location (.argument a.name index f)).toList

end Argument

namespace Method

def onewayReturn (m : Method) (oneway : Bool) : Verdict :=
  .ofNotes <|
    if oneway ∧ m.returnType.name ≠ "void" then [.atPlace m.location (.onewayReturns m.name)]
    else []

def onewayOutput (m : Method) (oneway : Bool) (a : Argument) : Verdict :=
  .ofNotes <| if oneway ∧ a.isOut then [.atPlace m.location (.onewayOut m.name)] else []

def checkArguments (m : Method) (g : Registry) (oneway : Bool) : Verdict :=
  .all <| m.arguments.zipIdx.map fun (a, i) =>
    (a.check g (i + 1)).andThen (m.onewayOutput oneway a)

/-- The first of the methods `before` with the name of this one. -/
def checkName (m : Method) (before : List Method) : Verdict :=
  match before.find? (·.name = m.name) with
  | some previous =>
    .ofNotes [.atPlace m.location (.redefinedMethod m.name),
      .atPlace previous.location .previousDefinition]
  | none => .pass

/-- The rules for a method that the methods `before` precede. -/
def check (m : Method) (g : Registry) (oneway : Bool) (before : List Method) : Verdict :=
  .all [m.returnType.check, m.onewayReturn (m.oneway || oneway),
    m.checkArguments g (m.oneway || oneway), m.checkName before]

def checkAll (g : Registry) (oneway : Bool) (before : List Method) : List Method → Verdict
  | [] => .pass
  | m :: ms => (m.check g oneway before).andThen (checkAll g oneway (before ++ [m]) ms)

end Method

namespace Declaration

def encodings (d : Declaration) : Verdict :=
  .ofNotes <|
    if d.header.annotations.utf8 ∧ d.header.annotations.utf8InCpp then
      [.atPlace d.location .clashingEncodings]
    else []

def checkTypes (d : Declaration) (g : Registry) : Verdict :=
  match d.body with
  | .parcelable .. => .pass
  | .structured _ fields => .all (fields.map fun f => f.type.check)
  | .interface oneway methods _ => d.encodings.andThen (Method.checkAll g oneway [] methods)

end Declaration

end IdlFrontEnd
