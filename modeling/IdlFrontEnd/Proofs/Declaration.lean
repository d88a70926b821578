import IdlFrontEnd.Declaration.Basic
import IdlFrontEnd.Proofs.TypeExpr

/-!
# The types that a declaration mentions

A field, a method, an argument and a constant each have a type. The list that the library goes
through when it resolves a file holds all of them and nothing else, whatever the kind of the
declaration is, and giving types canonical names or methods numbers changes nothing besides.
-/
namespace IdlFrontEnd

namespace Declaration

/-- The type stands in the declaration, at the top of one of the four places for types. -/
inductive Mentions (d : Declaration) : TypeExpr → Prop
  | field {name : QualifiedName} {fields : List Field} {f : Field}
      (body : d.body = .structured name fields) (member : f ∈ fields) : Mentions d f.type
  | returned {oneway : Bool} {methods : List Method} {constants : List Constant} {m : Method}
      (body : d.body = .interface oneway methods constants) (member : m ∈ methods) :
      Mentions d m.returnType
  | argument {oneway : Bool} {methods : List Method} {constants : List Constant} {m : Method}
      {a : Argument} (body : d.body = .interface oneway methods constants) (member : m ∈ methods)
      (inner : a ∈ m.arguments) : Mentions d a.type
  | constant {oneway : Bool} {methods : List Method} {constants : List Constant} {c : Constant}
      (body : d.body = .interface oneway methods constants) (member : c ∈ constants) :
      Mentions d c.type

theorem mem_types_iff {d : Declaration} {t : TypeExpr} : t ∈ d.types ↔ d.Mentions t := by
  obtain ⟨header, body⟩ := d
  constructor
  · intro member
    cases body with
    | parcelable name cppHeader => cases member
    | structured name fields =>
      obtain ⟨f, inside, rfl⟩ := List.mem_map.1 member
      exact .field rfl inside
    | interface oneway methods constants =>
      rcases List.mem_append.1 member with member | member
      · obtain ⟨m, inside, member⟩ := List.mem_flatMap.1 member
        rcases List.mem_cons.1 member with rfl | member
        · exact .returned rfl inside
        · obtain ⟨a, inner, rfl⟩ := List.mem_map.1 member
          exact .argument rfl inside inner
      · obtain ⟨c, inside, rfl⟩ := List.mem_map.1 member
        exact .constant rfl inside
  · intro mentions
    rcases mentions with ⟨rfl, inside⟩ | ⟨rfl, inside⟩ | ⟨rfl, inside, inner⟩ | ⟨rfl, inside⟩
    · exact List.mem_map.2 ⟨_, inside, rfl⟩
    · exact List.mem_append_left _ (List.mem_flatMap.2 ⟨_, inside, List.mem_cons_self⟩)
    · refine List.mem_append_left _ (List.mem_flatMap.2 ⟨_, inside, ?_⟩)
      exact List.mem_cons_of_mem _ (List.mem_map.2 ⟨_, inner, rfl⟩)
    · exact List.mem_append_right _ (List.mem_map.2 ⟨_, inside, rfl⟩)

def constants (d : Declaration) : List Constant :=
  match d.body with
  | .interface _ _ constants => constants
  | _ => []

theorem mapTypes_types (f : TypeExpr → TypeExpr) (d : Declaration) :
    (d.mapTypes f).types = d.types.map f := by
  obtain ⟨header, body⟩ := d
  cases body with
  | parcelable name cppHeader => rfl
  | structured name fields => simp [mapTypes, types, Function.comp_def]
  | interface oneway methods constants =>
    have ofMethod (m : Method) : (m.mapTypes f).types = m.types.map f := by
      simp [Method.mapTypes, Method.types, Function.comp_def]
    simp [mapTypes, types, List.flatMap_map, List.map_flatMap, ofMethod, Function.comp_def]

theorem mapTypes_header (f : TypeExpr → TypeExpr) (d : Declaration) :
    (d.mapTypes f).header = d.header := by
  obtain ⟨header, body⟩ := d
  cases body <;> rfl

theorem mapTypes_kind (f : TypeExpr → TypeExpr) (d : Declaration) :
    (d.mapTypes f).kind = d.kind := by
  obtain ⟨header, body⟩ := d
  cases body <;> rfl

theorem mapTypes_constants (f : TypeExpr → TypeExpr) (d : Declaration) :
    (d.mapTypes f).constants = d.constants.map fun c => { c with type := f c.type } := by
  obtain ⟨header, body⟩ := d
  cases body <;> rfl

theorem withMethods_header (d : Declaration) (methods : List Method) :
    (d.withMethods methods).header = d.header := by
  obtain ⟨header, body⟩ := d
  cases body <;> rfl

theorem withMethods_kind (d : Declaration) (methods : List Method) :
    (d.withMethods methods).kind = d.kind := by
  obtain ⟨header, body⟩ := d
  cases body <;> rfl

theorem withMethods_constants (d : Declaration) (methods : List Method) :
    (d.withMethods methods).constants = d.constants := by
  obtain ⟨header, body⟩ := d
  cases body <;> rfl

/-- Methods that mention the same types in the same places can take the place of others. -/
theorem withMethods_types (d : Declaration) {methods : List Method}
    (same : methods.map Method.types = d.methods.map Method.types) :
    (d.withMethods methods).types = d.types := by
  obtain ⟨header, body⟩ := d
  cases body with
  | parcelable name cppHeader => rfl
  | structured name fields => rfl
  | interface oneway written constants =>
    have all : methods.flatMap Method.types = written.flatMap Method.types :=
      congrArg List.flatten same
    simp [withMethods, types, all]

end Declaration

namespace Document

theorem mem_typeExprs_iff {d : Document} {t : TypeExpr} :
    t ∈ d.typeExprs ↔ ∃ declared ∈ d.types, t ∈ declared.types :=
  List.mem_flatMap

end Document

end IdlFrontEnd
