import IdlFrontEnd.Json
import IdlFrontEnd.Unit.Loaded

/-!
# Units as JSON

A unit is exported with every type under its canonical name. Keys are in ascending order; a
parameter list, a default and a method number are left out where there is none. A type without a
canonical name cannot be exported: the first one met ends the export. Constants are met before
methods, and the arguments of a method before its return type.
-/
namespace IdlFrontEnd.Export

def annotations (s : AnnotationSet) : Json := .strings (s.toList.map Annotation.name)

def nameOf (t : TypeExpr) : Except Fatal String :=
  match t.head.canonical with
  | some name => .ok name
  | none => .error ⟨.place t.head.location, .exportedUnresolved t.text⟩

mutual
def type : TypeExpr → Except Fatal Json
  | ⟨h, none⟩ => do
    let name ← nameOf ⟨h, none⟩
    return .object
      [("annotations", annotations h.annotations), ("array", .bool h.isArray),
       ("name", .string name)]
  | ⟨h, some ps⟩ => do
    let name ← nameOf ⟨h, some ps⟩
    let params ← types ps
    return .object
      [("annotations", annotations h.annotations), ("array", .bool h.isArray),
       ("name", .string name), ("parameters", .list params)]

def types : List TypeExpr → Except Fatal (List Json)
  | [] => .ok []
  | p :: ps => do
    let first ← type p
    return first :: (← types ps)
end

def literal (v : LiteralValue) : Json :=
  match v with
  | .invalid => .object [("kind", .string "error")]
  | .int n => .object [("kind", .string "int"), ("value", .int n)]
  | .string _ => .object [("kind", .string "string"), ("value", .optional .string v.string?)]

def field (f : Field) : Except Fatal Json := do
  let type ← type f.type
  return .object <|
    (f.default.map fun v => ("default", literal v.value)).toList
      ++ [("name", .string f.name), ("type", type)]

def constant (c : Constant) : Except Fatal Json := do
  let type ← type c.type
  return .object [("name", .string c.name), ("type", type), ("value", literal c.value.value)]

def argument (a : Argument) : Except Fatal Json := do
  let type ← type a.type
  return .object
    [("direction", .string a.direction.keyword), ("name", .string a.name), ("type", type)]

def method (m : Method) : Except Fatal Json := do
  let arguments ← m.arguments.mapM argument
  let returnType ← type m.returnType
  return .object <|
    [("arguments", .list arguments), ("comments", .string m.comments)]
      ++ (m.id.value?.map fun n => ("id", .int n)).toList
      ++ [("name", .string m.name), ("oneway", .bool m.oneway), ("return_type", returnType)]

/-- A declaration with the fields of its kind put where the order of keys wants them. -/
private def withHeader (d : Declaration) (afterComments afterKind : List (String × Json))
    (last : List (String × Json)) : Json :=
  .object <|
    [("annotations", annotations d.header.annotations), ("canonical_name", .string d.canonical),
     ("comments", .string d.header.comments)]
      ++ afterComments ++ [("kind", .string d.kind.keyword)] ++ afterKind
      ++ [("name", .string d.name)] ++ last ++ [("package", .string d.package)]

def declaration (d : Declaration) : Except Fatal Json := do
  match d.body with
  | .parcelable _ cppHeader =>
    return withHeader d [("cpp_header", .string cppHeader)] [] []
  | .structured _ fields =>
    return withHeader d [("fields", .list (← fields.mapM field))] [] []
  | .interface oneway methods constants =>
    let constants ← constants.mapM constant
    let methods ← methods.mapM method
    return withHeader d [("constants", .list constants)] [("methods", .list methods)]
      [("oneway", .bool oneway)]

def imported (i : LoadedImport) : Json :=
  .object
    [("filename", .optional .string i.file), ("needed_class", .string i.statement.className),
     ("types", .strings ((i.document.map fun d => d.types.map Declaration.canonical).getD []))]

def unit (d : Declaration) (imports : List LoadedImport) : Except Fatal Json := do
  let type ← declaration d
  return .object
    [("format", .string "aidl-unit"), ("imports", .list (imports.map imported)), ("type", type),
     ("version", .string "1.0")]

end IdlFrontEnd.Export
