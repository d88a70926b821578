import IdlFrontEnd.Proofs.Unit.Export
import IdlFrontEnd.Proofs.Unit.Schema

/-!
# Exports that the schema admits

Each exporter gives an object of its shape if the names in it are qualified names, no list of type
parameters is empty and the numbers of methods are in range. Comments, header files, values and the
names of members may be any text.
-/
namespace IdlFrontEnd

open Schema

/-- Every part has a canonical name of the right form, and a list of parameters is not empty. -/
def TypeExpr.Exportable (t : TypeExpr) : Prop :=
  ∀ p ∈ t.parts,
    (∃ name, p.head.canonical = some name ∧ isQualified name = true) ∧ p.params ≠ some []

structure Declaration.Exportable (d : Declaration) : Prop where
  types : ∀ t ∈ d.types, t.Exportable
  canonical : isQualified d.canonical = true
  package : isPackage d.package = true
  name : isQualified d.name = true
  identifier : d.kind = .interface → Text.isIdentifier d.name = true
  numbers : ∀ m ∈ d.methods, ∀ n ∈ m.id.value?, minMethodId ≤ n ∧ n ≤ maxMethodId

structure LoadedImport.Exportable (i : LoadedImport) : Prop where
  className : isQualified i.statement.className = true
  types : ∀ document ∈ i.document, ∀ d ∈ document.types, isQualified d.canonical = true

namespace Export

theorem annotations_admitted (s : AnnotationSet) :
    admits (annotations s) Schema.annotations = true := by
  obtain ⟨nullable, utf8, utf8InCpp⟩ := s
  cases nullable <;> cases utf8 <;> cases utf8InCpp <;> decide

theorem literal_admitted (v : LiteralValue) : admits (literal v) (.object .value) = true := by
  cases v with
  | invalid => decide
  | int n => simp [literal, exactly]
  | string quoted => simp [literal, exactly, anyText, LiteralValue.string?, Json.optional]

/-- A list of exports is admitted if each of them is. -/
theorem mapM_admitted {α : Type} {f : α → Except Fatal Json} {rule : Rule} {as : List α}
    (each : ∀ a ∈ as, ∃ json, f a = .ok json ∧ admits json rule = true) :
    ∃ items, as.mapM f = .ok items ∧ items.length = as.length ∧
      ∀ item ∈ items, admits item rule = true := by
  induction as with
  | nil => exact ⟨[], rfl, rfl, by simp⟩
  | cons a as ih =>
    obtain ⟨json, first, own⟩ := each a List.mem_cons_self
    obtain ⟨items, others, count, all⟩ := ih fun x member => each x (List.mem_cons_of_mem a member)
    refine ⟨json :: items, ?_, by simp [count], by simpa [own] using all⟩
    rw [List.mapM_cons, first, others]
    rfl

theorem types_eq_mapM (ps : List TypeExpr) : types ps = ps.mapM type := by
  induction ps with
  | nil => rfl
  | cons p ps ih => rw [types, List.mapM_cons, ih]

theorem type_admitted {t : TypeExpr} (exportable : t.Exportable) :
    ∃ json, type t = .ok json ∧ admits json (.object .type) = true := by
  induction t using TypeExpr.induction with
  | bare h =>
    obtain ⟨⟨name, found, qualified⟩, -⟩ := exportable ⟨h, none⟩ (by simp)
    refine ⟨_, by rw [type, nameOf, found]; rfl, ?_⟩
    simp [annotations_admitted, Schema.qualified, qualified]
  | params h ps ih =>
    obtain ⟨⟨name, found, qualified⟩, some⟩ := exportable ⟨h, some ps⟩ (by simp)
    have each : ∀ p ∈ ps, ∃ json, type p = .ok json ∧ admits json (.object .type) = true := by
      intro p member
      refine ih p member fun q inside => exportable q ?_
      rw [TypeExpr.parts_params]
      exact List.mem_cons_of_mem _ (List.mem_flatMap.2 ⟨p, member, inside⟩)
    obtain ⟨items, params, count, all⟩ := mapM_admitted each
    have least : 1 ≤ items.length := by
      rw [count]
      exact List.length_pos_iff.2 (by simpa using some)
    have admitted : admits (.list items) (.list 1 (.object .type)) = true := by
      rw [admits_list, List.all_eq_true.2 all, decide_eq_true least]
      rfl
    refine ⟨_, by rw [type, nameOf, found, types_eq_mapM, params]; rfl, ?_⟩
    rw [admits_object]
    simp [-admits_list, -admits_object, annotations_admitted, Schema.qualified, qualified, admitted]

theorem argument_admitted {a : Argument} (exportable : a.type.Exportable) :
    ∃ json, argument a = .ok json ∧ admits json (.object .argument) = true := by
  obtain ⟨json, h, admitted⟩ := type_admitted exportable
  have direction : a.direction.keyword = "in" ∨ a.direction.keyword = "out" ∨
      a.direction.keyword = "inout" := by
    cases a.direction <;> simp [Direction.keyword]
  refine ⟨_, by rw [argument, h]; rfl, ?_⟩
  rw [admits_object]
  simp [-admits_object, anyText, direction, admitted]

theorem constant_admitted {c : Constant} (exportable : c.type.Exportable) :
    ∃ json, constant c = .ok json ∧ admits json (.object .constant) = true := by
  obtain ⟨json, h, admitted⟩ := type_admitted exportable
  have value := literal_admitted c.value.value
  refine ⟨_, by rw [constant, h]; rfl, ?_⟩
  rw [admits_object]
  simp [-admits_object, anyText, admitted, value]

theorem field_admitted {f : Field} (exportable : f.type.Exportable) :
    ∃ json, field f = .ok json ∧ admits json (.object .field) = true := by
  obtain ⟨json, h, admitted⟩ := type_admitted exportable
  refine ⟨_, by rw [field, h]; rfl, ?_⟩
  rw [admits_object]
  cases f.default with
  | none => simp [-admits_object, anyText, admitted]
  | some v =>
    have value := literal_admitted v.value
    simp [-admits_object, anyText, admitted, value]

theorem method_admitted {m : Method} (exportable : ∀ t ∈ m.types, t.Exportable)
    (numbers : ∀ n ∈ m.id.value?, minMethodId ≤ n ∧ n ≤ maxMethodId) :
    ∃ json, method m = .ok json ∧ admits json (.object .method) = true := by
  have inner : ∀ a ∈ m.arguments, ∃ json, argument a = .ok json ∧
      admits json (.object .argument) = true := by
    intro a member
    exact argument_admitted (exportable _ (List.mem_cons_of_mem _ (List.mem_map.2 ⟨a, member, rfl⟩)))
  obtain ⟨arguments, harguments, -, all⟩ := mapM_admitted inner
  obtain ⟨json, h, admitted⟩ := type_admitted (exportable _ List.mem_cons_self)
  have list : admits (.list arguments) (.list 0 (.object .argument)) = true := by
    simpa [-admits_object] using all
  have exported : method m = .ok (.object <|
      [("arguments", .list arguments), ("comments", .string m.comments)]
        ++ (m.id.value?.map fun n => ("id", .int n)).toList
        ++ [("name", .string m.name), ("oneway", .bool m.oneway), ("return_type", json)]) := by
    rw [method, harguments]
    change (type m.returnType >>= _) = _
    rw [h]
    rfl
  refine ⟨_, exported, ?_⟩
  rw [admits_object]
  cases number : m.id.value? with
  | none => simp [-admits_object, -admits_list, anyText, admitted, list]
  | some n =>
    have range : 0 ≤ n ∧ n ≤ 16777214 := numbers n number
    simp [-admits_object, -admits_list, anyText, admitted, list, range]

theorem declaration_parcelable {d : Declaration} {n : QualifiedName} {cppHeader : String}
    (body : d.body = .parcelable n cppHeader) :
    declaration d = .ok (.object
      [("annotations", annotations d.header.annotations), ("canonical_name", .string d.canonical),
       ("comments", .string d.header.comments), ("cpp_header", .string cppHeader),
       ("kind", .string "parcelable"), ("name", .string d.name),
       ("package", .string d.package)]) := by
  obtain ⟨header, _⟩ := d
  subst body
  rfl

theorem declaration_structured {d : Declaration} {n : QualifiedName} {fields : List Field}
    {items : List Json} (body : d.body = .structured n fields)
    (all : fields.mapM field = .ok items) :
    declaration d = .ok (.object
      [("annotations", annotations d.header.annotations), ("canonical_name", .string d.canonical),
       ("comments", .string d.header.comments), ("fields", .list items),
       ("kind", .string "structured_parcelable"), ("name", .string d.name),
       ("package", .string d.package)]) := by
  obtain ⟨header, _⟩ := d
  subst body
  change (fields.mapM field >>= _) = _
  rw [all]
  rfl

theorem declaration_interface {d : Declaration} {oneway : Bool} {methods : List Method}
    {constants : List Constant} {ms cs : List Json}
    (body : d.body = .interface oneway methods constants)
    (allConstants : constants.mapM constant = .ok cs) (allMethods : methods.mapM method = .ok ms) :
    declaration d = .ok (.object
      [("annotations", annotations d.header.annotations), ("canonical_name", .string d.canonical),
       ("comments", .string d.header.comments), ("constants", .list cs),
       ("kind", .string "interface"), ("methods", .list ms), ("name", .string d.name),
       ("oneway", .bool oneway), ("package", .string d.package)]) := by
  obtain ⟨header, _⟩ := d
  subst body
  change (constants.mapM constant >>= _) = _
  rw [allConstants]
  change (methods.mapM method >>= _) = _
  rw [allMethods]
  rfl

theorem declaration_admitted {d : Declaration} (exportable : d.Exportable) :
    ∃ json, declaration d = .ok json ∧ admits json (.object .declaration) = true := by
  obtain ⟨types, canonical, package, name, identifier, numbers⟩ := exportable
  unfold Declaration.types at types
  cases body : d.body with
  | parcelable n cppHeader =>
    refine ⟨_, declaration_parcelable body, ?_⟩
    simp [declared, annotations_admitted, exactly, anyText, qualified, canonical, package, name]
  | structured n fields =>
    rw [body] at types
    have each : ∀ f ∈ fields, ∃ json, field f = .ok json ∧
        admits json (.object .field) = true := by
      intro f member
      exact field_admitted (types _ (List.mem_map.2 ⟨f, member, rfl⟩))
    obtain ⟨items, all, -, admitted⟩ := mapM_admitted each
    have list : admits (.list items) (.list 0 (.object .field)) = true := by
      simpa [-admits_object] using admitted
    refine ⟨_, declaration_structured body all, ?_⟩
    rw [admits_object]
    simp [-admits_object, -admits_list, declared, annotations_admitted, exactly, anyText,
      qualified, canonical, package, name, list]
  | interface oneway methods constants =>
    rw [body] at types
    have eachConstant : ∀ c ∈ constants, ∃ json, constant c = .ok json ∧
        admits json (.object .constant) = true := by
      intro c member
      exact constant_admitted (types _ (List.mem_append_right _ (List.mem_map.2 ⟨c, member, rfl⟩)))
    have eachMethod : ∀ m ∈ methods, ∃ json, method m = .ok json ∧
        admits json (.object .method) = true := by
      intro m member
      refine method_admitted (fun t inside => types t ?_) (numbers m ?_)
      · exact List.mem_append_left _ (List.mem_flatMap.2 ⟨m, member, inside⟩)
      · simpa [Declaration.methods, body] using member
    obtain ⟨cs, allConstants, -, admittedConstants⟩ := mapM_admitted eachConstant
    obtain ⟨ms, allMethods, -, admittedMethods⟩ := mapM_admitted eachMethod
    have constantList : admits (.list cs) (.list 0 (.object .constant)) = true := by
      simpa [-admits_object] using admittedConstants
    have methodList : admits (.list ms) (.list 0 (.object .method)) = true := by
      simpa [-admits_object] using admittedMethods
    have word := identifier (by rw [Declaration.kind, body])
    refine ⟨_, declaration_interface body allConstants allMethods, ?_⟩
    rw [admits_object]
    simp [-admits_object, -admits_list, declared, annotations_admitted, exactly, anyText,
      qualified, canonical, package, word, constantList, methodList]

theorem imported_admitted {i : LoadedImport} (exportable : i.Exportable) :
    admits (imported i) (.object .imported) = true := by
  obtain ⟨className, types⟩ := exportable
  have file : admits (.optional .string i.file) .textOrNull = true := by
    cases i.file <;> rw [Json.optional, admits]
  have list : admits
      (.strings ((i.document.map fun d => d.types.map Declaration.canonical).getD []))
      (.list 0 (.text isQualified)) = true := by
    cases document : i.document with
    | none => simp [Json.strings]
    | some d => simpa [Json.strings, document] using types d document
  rw [imported, admits_object]
  simp [-admits_object, -admits_list, qualified, className, file, list]

/-- The export of a unit whose parts are exportable. -/
theorem unit_admitted {d : Declaration} (exportable : d.Exportable) {imports : List LoadedImport}
    (each : ∀ i ∈ imports, i.Exportable) :
    ∃ json, unit d imports = .ok json ∧ admits json (.object .unit) = true := by
  obtain ⟨json, h, admitted⟩ := declaration_admitted exportable
  have list : admits (.list (imports.map imported)) (.list 0 (.object .imported)) = true := by
    rw [admits_list, List.all_map]
    simpa [-admits_object] using fun i member => imported_admitted (each i member)
  have version : isVersion "1.0" = true := by decide
  refine ⟨_, by rw [unit, h]; rfl, ?_⟩
  rw [admits_object]
  simp [-admits_object, -admits_list, exactly, admitted, list, version]

end Export

end IdlFrontEnd
