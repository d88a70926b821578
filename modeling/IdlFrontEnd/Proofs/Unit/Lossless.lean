import IdlFrontEnd.Proofs.Each
import IdlFrontEnd.Proofs.Grammar.Literal
import IdlFrontEnd.Proofs.Unit.Exported

/-!
# What can be read back from an export

Two units with one export agree in all that a code generator needs. Most of it stands in the export as
it is. Three things do not: a package is written with its terms joined by dots, a string without its
quotes, and a set of annotations as a list. The terms are found again because they are identifiers,
the quotes because a string of a source text has no other ones, and the set because a list names each
annotation that is in it. An empty place is told from a missing one by its key.
-/
namespace IdlFrontEnd

/-! ## Agreement -/

/-- The same canonical name, array mark and annotations, wherever and however it is written. -/
structure TypeHead.Agrees (g h : TypeHead) : Prop where
  canonical : g.canonical = h.canonical
  isArray : g.isArray = h.isArray
  annotations : g.annotations = h.annotations

/-- Heads agree at every depth, and parameter lists stand in the same places. -/
inductive TypeExpr.Agrees : TypeExpr → TypeExpr → Prop
  | bare {g h : TypeHead} (head : g.Agrees h) : Agrees ⟨g, none⟩ ⟨h, none⟩
  | params {g h : TypeHead} {ps qs : List TypeExpr} (head : g.Agrees h)
      (each : List.Forall₂ Agrees ps qs) : Agrees ⟨g, some ps⟩ ⟨h, some qs⟩

structure Field.Agrees (f g : Field) : Prop where
  name : f.name = g.name
  type : f.type.Agrees g.type
  default : f.default.map Literal.value = g.default.map Literal.value

structure Argument.Agrees (a b : Argument) : Prop where
  name : a.name = b.name
  direction : a.direction = b.direction
  type : a.type.Agrees b.type

structure Method.Agrees (m n : Method) : Prop where
  name : m.name = n.name
  comments : m.comments = n.comments
  id : m.id.value? = n.id.value?
  oneway : m.oneway = n.oneway
  returnType : m.returnType.Agrees n.returnType
  arguments : List.Forall₂ Argument.Agrees m.arguments n.arguments

structure Constant.Agrees (c d : Constant) : Prop where
  name : c.name = d.name
  type : c.type.Agrees d.type
  value : c.value.value = d.value.value

/-- Bodies of one kind with the same parts in the same order. -/
inductive Body.Agrees : Body → Body → Prop
  | parcelable {n n' : QualifiedName} {cppHeader : String} :
      Agrees (.parcelable n cppHeader) (.parcelable n' cppHeader)
  | structured {n n' : QualifiedName} {fs gs : List Field}
      (fields : List.Forall₂ Field.Agrees fs gs) : Agrees (.structured n fs) (.structured n' gs)
  | interface {oneway : Bool} {ms ns : List Method} {cs ds : List Constant}
      (methods : List.Forall₂ Method.Agrees ms ns)
      (constants : List.Forall₂ Constant.Agrees cs ds) :
      Agrees (.interface oneway ms cs) (.interface oneway ns ds)

structure Declaration.Agrees (d e : Declaration) : Prop where
  kind : d.kind = e.kind
  canonical : d.canonical = e.canonical
  name : d.name = e.name
  package : d.header.package = e.header.package
  annotations : d.header.annotations = e.header.annotations
  comments : d.header.comments = e.header.comments
  body : d.body.Agrees e.body

structure LoadedImport.Agrees (i j : LoadedImport) : Prop where
  className : i.statement.className = j.statement.className
  file : i.file = j.file

structure LoadedUnit.Agrees (u v : LoadedUnit) : Prop where
  declaration : u.declaration.Agrees v.declaration
  imports : List.Forall₂ LoadedImport.Agrees u.imports v.imports

/-! ## Values and types -/

theorem AnnotationSet.ext_contains {s t : AnnotationSet}
    (same : ∀ a, s.contains a = t.contains a) : s = t := by
  obtain ⟨nullable, utf8, utf8InCpp⟩ := s
  obtain ⟨nullable', utf8', utf8InCpp'⟩ := t
  obtain rfl : nullable = nullable' := same .nullable
  obtain rfl : utf8 = utf8' := same .utf8
  obtain rfl : utf8InCpp = utf8InCpp' := same .utf8InCpp
  rfl

theorem Annotation.name_inj {a b : Annotation} (same : a.name = b.name) : a = b :=
  Option.some.inj ((ofName?_eq_some_iff.2 rfl).symm.trans (ofName?_eq_some_iff.2 same))

theorem AnnotationSet.contains_iff {s : AnnotationSet} {a : Annotation} :
    s.contains a = true ↔ a.name ∈ s.toList.map Annotation.name := by
  have listed : a ∈ Annotation.all := by cases a <;> decide
  constructor
  · exact fun own => List.mem_map.2 ⟨a, List.mem_filter.2 ⟨listed, own⟩, rfl⟩
  · intro member
    obtain ⟨b, inside, same⟩ := List.mem_map.1 member
    rw [← Annotation.name_inj same]
    exact (List.mem_filter.1 inside).2

theorem Direction.keyword_inj {d e : Direction} (same : d.keyword = e.keyword) : d = e :=
  Option.some.inj ((ofKeyword?_eq_some_iff.2 rfl).symm.trans (ofKeyword?_eq_some_iff.2 same))

namespace Export

theorem strings_inj {ss ts : List String} (same : Json.strings ss = Json.strings ts) : ss = ts :=
  List.map_injective_iff.2 (fun _ _ => Json.string.inj) (Json.list.inj same)

theorem annotations_inj {s t : AnnotationSet} (same : annotations s = annotations t) : s = t := by
  have names := strings_inj same
  refine AnnotationSet.ext_contains fun a => Bool.eq_iff_iff.2 ?_
  rw [AnnotationSet.contains_iff, names, AnnotationSet.contains_iff]

theorem literal_inj {v w : LiteralValue} (spelled : v.Spelled) (spelled' : w.Spelled)
    (same : literal v = literal w) : v = w := by
  have text {inside : List Char} (parts : ∀ c ∈ inside, c ≠ '"' ∧ Literal.isPlain c = true) :
      (LiteralValue.string (String.ofList ('"' :: inside ++ ['"']))).string? =
        some (String.ofList inside) :=
    Literal.string?_quoted fun member => (parts '"' member).1 rfl
  cases spelled with
  | int low high =>
    cases spelled' with
    | int low' high' => simpa [literal] using same
    | string parts' => simp [literal] at same
  | string parts =>
    cases spelled' with
    | int low' high' => simp [literal] at same
    | string parts' =>
      unfold literal at same
      rw [text parts, text parts'] at same
      simp only [Json.optional, Json.object.injEq, List.cons.injEq, Prod.mk.injEq, true_and,
        Json.string.injEq, String.ofList_inj, and_true] at same
      rw [same]

/-- Lists with one export agree item by item, if items do. -/
theorem mapM_agrees {α : Type} {f : α → Except Fatal Json} {R : α → α → Prop} {as bs : List α}
    {items : List Json} (h : as.mapM f = .ok items) (h' : bs.mapM f = .ok items)
    (each : ∀ a ∈ as, ∀ b ∈ bs, ∀ json, f a = .ok json → f b = .ok json → R a b) :
    List.Forall₂ R as bs := by
  have exported := mapM_eq_ok_iff.1 h
  clear h
  induction exported generalizing bs with
  | nil =>
    cases mapM_eq_ok_iff.1 h'
    exact .nil
  | @cons a json as items own others ih =>
    cases mapM_eq_ok_iff.1 h' with
    | @cons b _ bs _ own' others' =>
      refine .cons (each a List.mem_cons_self b List.mem_cons_self json own own') ?_
      refine ih (mapM_eq_ok_iff.2 others') fun x member y member' => ?_
      exact each x (List.mem_cons_of_mem a member) y (List.mem_cons_of_mem b member')

theorem name_of_ok {t : TypeExpr} {name : String} (h : nameOf t = .ok name) :
    t.head.canonical = some name := by
  unfold nameOf at h
  split at h
  next own found =>
    cases h
    exact found
  · cases h

theorem type_bare {h : TypeHead} {json : Json} (exported : type ⟨h, none⟩ = .ok json) :
    ∃ name, h.canonical = some name ∧ json = .object
      [("annotations", annotations h.annotations), ("array", .bool h.isArray),
       ("name", .string name)] := by
  unfold type at exported
  obtain ⟨name, found, exported⟩ := except_bind_eq_ok_iff.1 exported
  cases exported
  exact ⟨name, name_of_ok found, rfl⟩

theorem type_params {h : TypeHead} {ps : List TypeExpr} {json : Json}
    (exported : type ⟨h, some ps⟩ = .ok json) :
    ∃ name items, h.canonical = some name ∧ ps.mapM type = .ok items ∧ json = .object
      [("annotations", annotations h.annotations), ("array", .bool h.isArray),
       ("name", .string name), ("parameters", .list items)] := by
  unfold type at exported
  obtain ⟨name, found, exported⟩ := except_bind_eq_ok_iff.1 exported
  obtain ⟨items, all, exported⟩ := except_bind_eq_ok_iff.1 exported
  cases exported
  exact ⟨name, items, name_of_ok found, types_eq_mapM ps ▸ all, rfl⟩

theorem type_agrees {t u : TypeExpr} {json : Json} (exported : type t = .ok json)
    (exported' : type u = .ok json) : t.Agrees u := by
  induction t using TypeExpr.induction generalizing u json with
  | bare g =>
    obtain ⟨name, found, rfl⟩ := type_bare exported
    obtain ⟨h, qs⟩ := u
    cases qs with
    | none =>
      obtain ⟨name', found', same⟩ := type_bare exported'
      simp only [Json.object.injEq, List.cons.injEq, Prod.mk.injEq, true_and, Json.bool.injEq,
        Json.string.injEq, and_true] at same
      obtain ⟨set, array, rfl⟩ := same
      exact .bare ⟨found.trans found'.symm, array, annotations_inj set⟩
    | some qs =>
      obtain ⟨name', items', -, -, same⟩ := type_params exported'
      simp at same
  | params g ps ih =>
    obtain ⟨name, items, found, all, rfl⟩ := type_params exported
    obtain ⟨h, qs⟩ := u
    cases qs with
    | none =>
      obtain ⟨name', -, same⟩ := type_bare exported'
      simp at same
    | some qs =>
      obtain ⟨name', items', found', all', same⟩ := type_params exported'
      simp only [Json.object.injEq, List.cons.injEq, Prod.mk.injEq, true_and, Json.bool.injEq,
        Json.string.injEq, Json.list.injEq, and_true] at same
      obtain ⟨set, array, rfl, rfl⟩ := same
      refine .params ⟨found.trans found'.symm, array, annotations_inj set⟩ ?_
      exact mapM_agrees all all' fun p member q _ json own own' => ih p member own own'

/-! ## Members -/

/-- An entry that may be missing is told by its key, as one with another key follows. -/
theorem optionalEntry_inj {α : Type} {key next : String} (other : key ≠ next) {f : α → Json}
    {o o' : Option α} {json json' : Json} {rest rest' : List (String × Json)}
    (same : (o.map fun a => (key, f a)).toList ++ (next, json) :: rest =
      (o'.map fun a => (key, f a)).toList ++ (next, json') :: rest') :
    o.map f = o'.map f ∧ json = json' ∧ rest = rest' := by
  cases o with
  | none =>
    cases o' with
    | none => simpa using same
    | some a' => exact absurd (Prod.mk.inj (List.cons.inj same).1).1 (Ne.symm other)
  | some a =>
    cases o' with
    | none => exact absurd (Prod.mk.inj (List.cons.inj same).1).1 other
    | some a' => simpa using same

theorem default_inj {o o' : Option Literal} (spelled : ∀ v ∈ o, v.value.Spelled)
    (spelled' : ∀ v ∈ o', v.value.Spelled)
    (same : (o.map fun v => literal v.value) = o'.map fun v => literal v.value) :
    o.map Literal.value = o'.map Literal.value := by
  cases o with
  | none =>
    cases o' with
    | none => rfl
    | some w => cases same
  | some v =>
    cases o' with
    | none => cases same
    | some w =>
      exact congrArg some (literal_inj (spelled v rfl) (spelled' w rfl) (Option.some.inj same))

theorem field_agrees {f g : Field} {json : Json} (exported : field f = .ok json)
    (exported' : field g = .ok json) (spelled : ∀ v ∈ f.default, v.value.Spelled)
    (spelled' : ∀ v ∈ g.default, v.value.Spelled) : f.Agrees g := by
  unfold field at exported exported'
  obtain ⟨type, own, exported⟩ := except_bind_eq_ok_iff.1 exported
  obtain ⟨type', own', exported'⟩ := except_bind_eq_ok_iff.1 exported'
  cases exported
  have entries := Json.object.inj (Except.ok.inj exported')
  obtain ⟨default, name, last⟩ := optionalEntry_inj (by decide) entries
  cases last
  exact ⟨(Json.string.inj name).symm, type_agrees own own', (default_inj spelled' spelled default).symm⟩

theorem constant_agrees {c d : Constant} {json : Json} (exported : constant c = .ok json)
    (exported' : constant d = .ok json) (spelled : c.value.value.Spelled)
    (spelled' : d.value.value.Spelled) : c.Agrees d := by
  unfold constant at exported exported'
  obtain ⟨type, own, exported⟩ := except_bind_eq_ok_iff.1 exported
  obtain ⟨type', own', exported'⟩ := except_bind_eq_ok_iff.1 exported'
  cases exported
  have same := Except.ok.inj exported'
  simp only [Json.object.injEq, List.cons.injEq, Prod.mk.injEq, true_and, Json.string.injEq,
    and_true] at same
  obtain ⟨name, rfl, value⟩ := same
  exact ⟨name.symm, type_agrees own own', (literal_inj spelled' spelled value).symm⟩

theorem argument_agrees {a b : Argument} {json : Json} (exported : argument a = .ok json)
    (exported' : argument b = .ok json) : a.Agrees b := by
  unfold argument at exported exported'
  obtain ⟨type, own, exported⟩ := except_bind_eq_ok_iff.1 exported
  obtain ⟨type', own', exported'⟩ := except_bind_eq_ok_iff.1 exported'
  cases exported
  have same := Except.ok.inj exported'
  simp only [Json.object.injEq, List.cons.injEq, Prod.mk.injEq, true_and, Json.string.injEq,
    and_true] at same
  obtain ⟨direction, name, rfl⟩ := same
  exact ⟨name.symm, (Direction.keyword_inj direction).symm, type_agrees own own'⟩

theorem method_agrees {m n : Method} {json : Json} (exported : method m = .ok json)
    (exported' : method n = .ok json) : m.Agrees n := by
  unfold method at exported exported'
  obtain ⟨arguments, all, exported⟩ := except_bind_eq_ok_iff.1 exported
  obtain ⟨type, own, exported⟩ := except_bind_eq_ok_iff.1 exported
  obtain ⟨arguments', all', exported'⟩ := except_bind_eq_ok_iff.1 exported'
  obtain ⟨type', own', exported'⟩ := except_bind_eq_ok_iff.1 exported'
  cases exported
  have entries := Json.object.inj (Except.ok.inj exported')
  simp only [List.cons_append, List.nil_append, List.cons.injEq, Prod.mk.injEq, true_and,
    Json.list.injEq, Json.string.injEq] at entries
  obtain ⟨rfl, comments, entries⟩ := entries
  obtain ⟨id, name, last⟩ := optionalEntry_inj (by decide) entries
  simp only [List.cons.injEq, Prod.mk.injEq, true_and, Json.bool.injEq, and_true] at last
  obtain ⟨oneway, rfl⟩ := last
  have number := Option.map_injective (fun _ _ => Json.int.inj) id
  refine ⟨(Json.string.inj name).symm, comments.symm, number.symm, oneway.symm,
    type_agrees own own', ?_⟩
  exact mapM_agrees all all' fun a _ b _ json first second => argument_agrees first second

end Export

/-! ## Declarations and imports -/

theorem Body.Agrees.kind {d e : Declaration} (body : d.body.Agrees e.body) : d.kind = e.kind := by
  obtain ⟨header, written⟩ := d
  obtain ⟨header', written'⟩ := e
  cases body <;> rfl

/-- Terms of the package, defaults and values of constants are as a text spells them. -/
structure Declaration.Readable (d : Declaration) : Prop where
  package : ∀ term ∈ d.header.package, Text.isIdentifier term = true
  defaults {n : QualifiedName} {fields : List Field} (body : d.body = .structured n fields) :
    ∀ f ∈ fields, ∀ v ∈ f.default, v.value.Spelled
  values {oneway : Bool} {methods : List Method} {constants : List Constant}
    (body : d.body = .interface oneway methods constants) :
    ∀ c ∈ constants, c.value.value.Spelled

namespace Export

/-- The object that a declaration is exported to, by its kind. -/
inductive IsExport (d : Declaration) (json : Json) : Prop
  | parcelable {n : QualifiedName} {cppHeader : String} (body : d.body = .parcelable n cppHeader)
      (object : json = .object
        [("annotations", annotations d.header.annotations), ("canonical_name", .string d.canonical),
         ("comments", .string d.header.comments), ("cpp_header", .string cppHeader),
         ("kind", .string "parcelable"), ("name", .string d.name),
         ("package", .string d.package)])
  | structured {n : QualifiedName} {fields : List Field} {items : List Json}
      (body : d.body = .structured n fields) (all : fields.mapM field = .ok items)
      (object : json = .object
        [("annotations", annotations d.header.annotations), ("canonical_name", .string d.canonical),
         ("comments", .string d.header.comments), ("fields", .list items),
         ("kind", .string "structured_parcelable"), ("name", .string d.name),
         ("package", .string d.package)])
  | interface {oneway : Bool} {methods : List Method} {constants : List Constant}
      {ms cs : List Json} (body : d.body = .interface oneway methods constants)
      (allConstants : constants.mapM constant = .ok cs) (allMethods : methods.mapM method = .ok ms)
      (object : json = .object
        [("annotations", annotations d.header.annotations), ("canonical_name", .string d.canonical),
         ("comments", .string d.header.comments), ("constants", .list cs),
         ("kind", .string "interface"), ("methods", .list ms), ("name", .string d.name),
         ("oneway", .bool oneway), ("package", .string d.package)])

theorem declaration_isExport {d : Declaration} {json : Json} (exported : declaration d = .ok json) :
    IsExport d json := by
  cases body : d.body with
  | parcelable n cppHeader =>
    exact .parcelable body (Except.ok.inj (exported.symm.trans (declaration_parcelable body)))
  | structured n fields =>
    have found := exported
    unfold declaration at found
    rw [body] at found
    obtain ⟨items, all, -⟩ := except_bind_eq_ok_iff.1 found
    have own := declaration_structured body all
    exact .structured body all (Except.ok.inj (exported.symm.trans own))
  | interface oneway methods constants =>
    have found := exported
    unfold declaration at found
    rw [body] at found
    obtain ⟨cs, allConstants, found⟩ := except_bind_eq_ok_iff.1 found
    obtain ⟨ms, allMethods, -⟩ := except_bind_eq_ok_iff.1 found
    have own := declaration_interface body allConstants allMethods
    exact .interface body allConstants allMethods (Except.ok.inj (exported.symm.trans own))

theorem declaration_agrees {d e : Declaration} {json : Json} (readable : d.Readable)
    (readable' : e.Readable) (exported : declaration d = .ok json)
    (exported' : declaration e = .ok json) : d.Agrees e := by
  have terms (package : d.package = e.package) : d.header.package = e.header.package :=
    Text.joinDots_inj readable.package readable'.package package
  -- the fourth key tells the kinds apart
  cases declaration_isExport exported with
  | parcelable body object =>
    cases declaration_isExport exported' with
    | structured body' all' object' => simp [object] at object'
    | interface body' allConstants' allMethods' object' => simp [object] at object'
    | parcelable body' object' =>
      simp only [object, Json.object.injEq, List.cons.injEq, Prod.mk.injEq, true_and,
        Json.string.injEq, and_true] at object'
      obtain ⟨set, canonical, comments, rfl, name, package⟩ := object'
      have agrees : d.body.Agrees e.body := by
        rw [body, body']
        exact .parcelable
      exact ⟨agrees.kind, canonical, name, terms package, annotations_inj set, comments, agrees⟩
  | structured body all object =>
    cases declaration_isExport exported' with
    | parcelable body' object' => simp [object] at object'
    | interface body' allConstants' allMethods' object' => simp [object] at object'
    | structured body' all' object' =>
      simp only [object, Json.object.injEq, List.cons.injEq, Prod.mk.injEq, true_and,
        Json.string.injEq, Json.list.injEq, and_true] at object'
      obtain ⟨set, canonical, comments, rfl, name, package⟩ := object'
      have agrees : d.body.Agrees e.body := by
        rw [body, body']
        refine .structured (mapM_agrees all all' fun f member g member' _ own own' => ?_)
        exact field_agrees own own' (readable.defaults body f member)
          (readable'.defaults body' g member')
      exact ⟨agrees.kind, canonical, name, terms package, annotations_inj set, comments, agrees⟩
  | interface body allConstants allMethods object =>
    cases declaration_isExport exported' with
    | parcelable body' object' => simp [object] at object'
    | structured body' all' object' => simp [object] at object'
    | interface body' allConstants' allMethods' object' =>
      simp only [object, Json.object.injEq, List.cons.injEq, Prod.mk.injEq, true_and,
        Json.string.injEq, Json.list.injEq, Json.bool.injEq, and_true] at object'
      obtain ⟨set, canonical, comments, rfl, rfl, name, rfl, package⟩ := object'
      have agrees : d.body.Agrees e.body := by
        rw [body, body']
        refine .interface (mapM_agrees allMethods allMethods' ?_)
          (mapM_agrees allConstants allConstants' ?_)
        · exact fun m _ n _ json own own' => method_agrees own own'
        · intro c member c' member' _ own own'
          exact constant_agrees own own' (readable.values body c member)
            (readable'.values body' c' member')
      exact ⟨agrees.kind, canonical, name, terms package, annotations_inj set, comments, agrees⟩

theorem imports_agree {is js : List LoadedImport} (same : is.map imported = js.map imported) :
    List.Forall₂ LoadedImport.Agrees is js := by
  have each := List.forall₂_map_left_iff.1 (List.forall₂_map_right_iff.1
    (List.forall₂_eq_eq_eq ▸ same : List.Forall₂ (· = ·) (is.map imported) (js.map imported)))
  refine each.imp fun i j same => ?_
  simp only [imported, Json.object.injEq, List.cons.injEq, Prod.mk.injEq, true_and,
    Json.string.injEq, and_true] at same
  obtain ⟨file, className, -⟩ := same
  refine ⟨className, ?_⟩
  cases first : i.file <;> cases second : j.file <;> simp_all [Json.optional]

theorem unit_agrees {u v : LoadedUnit} {json : Json} (readable : u.declaration.Readable)
    (readable' : v.declaration.Readable) (exported : unit u.declaration u.imports = .ok json)
    (exported' : unit v.declaration v.imports = .ok json) : u.Agrees v := by
  obtain ⟨type, own, exported⟩ := except_bind_eq_ok_iff.1 exported
  obtain ⟨type', own', exported'⟩ := except_bind_eq_ok_iff.1 exported'
  cases exported
  have same := Except.ok.inj exported'
  simp only [Json.object.injEq, List.cons.injEq, Prod.mk.injEq, true_and, Json.list.injEq,
    and_true] at same
  obtain ⟨imports, rfl⟩ := same
  exact ⟨declaration_agrees readable readable' own own', imports_agree imports.symm⟩

end Export

/-! ## Loaded units -/

theorem Declaration.Spelled.readable {package : List String} {written : Declaration}
    (spelled : written.Spelled package) (words : ∀ term ∈ package, Text.IsFreeWord term)
    (f : TypeExpr → TypeExpr) (methods : List Method) :
    ((written.mapTypes f).withMethods methods).Readable := by
  obtain ⟨own, -, body⟩ := spelled
  have package : ∀ term ∈ ((written.mapTypes f).withMethods methods).header.package,
      Text.isIdentifier term = true := by
    rw [withMethods_header, mapTypes_header, own]
    exact fun term member => (words term member).identifier
  obtain ⟨header, parts⟩ := written
  cases body with
  | parcelable _ _ => exact ⟨package, nofun, nofun⟩
  | structured _ _ each =>
    refine ⟨package, ?_, nofun⟩
    rintro _ _ ⟨⟩ _ member
    obtain ⟨g, inside, rfl⟩ := List.mem_map.1 member
    exact (each g inside).default
  | interface _ _ each _ =>
    refine ⟨package, nofun, ?_⟩
    rintro _ _ _ ⟨⟩ _ member
    obtain ⟨c, inside, rfl⟩ := List.mem_map.1 member
    exact (each c inside).value

theorem loadUnit_readable {provider : SourceProvider} {options : Options} {path : String}
    {u : LoadedUnit} {c : Context} (loaded : loadUnit provider options path .empty = .ok u c) :
    u.declaration.Readable ∧ ∃ json, Export.unit u.declaration u.imports = .ok json := by
  obtain ⟨file, spelled, ⟨⟨written, inside, find, -, same⟩, -, -⟩, -⟩ := loadUnit_readFrom loaded
  have honest := loadUnit_honest Context.empty_named provider options path
  constructor
  · rw [same]
    exact (spelled.types written inside).readable spelled.words _ _
  · exact Export.unit_ok (fun _ => (honest.of_ok loaded).2.own.isFullyResolved) u.imports

/-- Units that are exported alike are alike in all that a code generator needs, wherever they were
loaded from. -/
theorem loadUnit_export_lossless (provider provider' : SourceProvider) (options options' : Options)
    (path path' : String) (u v : LoadedUnit) (c c' : Context)
    (loaded : loadUnit provider options path .empty = .ok u c)
    (loaded' : loadUnit provider' options' path' .empty = .ok v c')
    (same : Export.unit u.declaration u.imports = Export.unit v.declaration v.imports) :
    u.Agrees v := by
  obtain ⟨readable, json, exported⟩ := loadUnit_readable loaded
  obtain ⟨readable', -, -⟩ := loadUnit_readable loaded'
  exact Export.unit_agrees readable readable' exported (same.symm.trans exported)

namespace Json

/-! Whether two values are the same is decided along their structure. -/

mutual
def same : Json → Json → Bool
  | .null, .null => true
  | .bool b, .bool b' => b == b'
  | .int n, .int n' => n == n'
  | .string s, .string s' => s == s'
  | .list items, .list items' => sameItems items items'
  | .object fields, .object fields' => sameFields fields fields'
  | _, _ => false

def sameItems : List Json → List Json → Bool
  | [], [] => true
  | item :: items, item' :: items' => same item item' && sameItems items items'
  | _, _ => false

def sameFields : List (String × Json) → List (String × Json) → Bool
  | [], [] => true
  | (key, value) :: fields, (key', value') :: fields' =>
    key == key' && same value value' && sameFields fields fields'
  | _, _ => false
end

mutual
theorem eq_of_same {a b : Json} (h : same a b = true) : a = b := by
  cases a <;> cases b <;> simp [same] at h
  case null.null => rfl
  case bool.bool => rw [h]
  case int.int => rw [h]
  case string.string => rw [h]
  case list.list => rw [eq_of_sameItems h]
  case object.object => rw [eq_of_sameFields h]

theorem eq_of_sameItems {as bs : List Json} (h : sameItems as bs = true) : as = bs := by
  cases as <;> cases bs <;> simp [sameItems] at h
  case nil.nil => rfl
  case cons.cons => rw [eq_of_same h.1, eq_of_sameItems h.2]

theorem eq_of_sameFields {fs gs : List (String × Json)} (h : sameFields fs gs = true) :
    fs = gs := by
  match fs, gs with
  | [], [] => rfl
  | (k, v) :: fs, (l, w) :: gs =>
    simp [sameFields] at h
    rw [h.1.1, eq_of_same h.1.2, eq_of_sameFields h.2]
end

end Json

/-- Both units are exported, and to the same object. -/
def exportedAlike (u v : LoadedUnit) : Bool :=
  match Export.unit u.declaration u.imports, Export.unit v.declaration v.imports with
  | .ok a, .ok b => a.same b
  | _, _ => false

theorem eq_of_exportedAlike {u v : LoadedUnit} (alike : exportedAlike u v = true) :
    Export.unit u.declaration u.imports = Export.unit v.declaration v.imports := by
  unfold exportedAlike at alike
  split at alike
  next a b own own' => rw [own, own', Json.eq_of_same alike]
  · cases alike

/-- One interface in two texts: blanks differ, and so do the digits of the constant. -/
def spacedOut : FileStore :=
  FileStore.empty.insert "p/I.aidl"
    ("package p;\ninterface I\n\x7b\n  const int A = 0x10 ;\n" ++
      "  List < String > f ( @nullable in I[ ] i ) ;\n\x7d\n")

def closeTogether : FileStore :=
  FileStore.empty.insert "p/I.aidl"
    "package p; interface I { const int A = 16; List<String> f(@nullable in I[] i); }"

theorem spacedOut_agrees :
    ∃ u c v c', loadUnit spacedOut.provider searchHere "p/I.aidl" .empty = .ok u c ∧
      loadUnit closeTogether.provider searchHere "p/I.aidl" .empty = .ok v c' ∧
      Export.unit u.declaration u.imports = Export.unit v.declaration v.imports ∧
      u.Agrees v := by
  have evaluated :
      ofLoaded (fun u _ => ofLoaded (fun v _ => exportedAlike u v)
          (loadUnit closeTogether.provider searchHere "p/I.aidl" .empty))
        (loadUnit spacedOut.provider searchHere "p/I.aidl" .empty) = some (some true) := by
    decide +kernel
  obtain ⟨u, c, loaded, inner⟩ := exists_of_ofLoaded evaluated
  obtain ⟨v, c', loaded', alike⟩ := exists_of_ofLoaded inner
  have same := eq_of_exportedAlike alike
  exact ⟨u, c, v, c', loaded, loaded', same,
    loadUnit_export_lossless _ _ _ _ _ _ u v c c' loaded loaded' same⟩

end IdlFrontEnd
