import IdlFrontEnd.Proofs.Grammar.Parsed
import IdlFrontEnd.Proofs.Text.Parts
import IdlFrontEnd.Proofs.Token.Written

/-!
# How the declarations of a text are spelled

Every name that is read in silence is a word outside the keywords, or several with dots between
them; a list of type parameters that is read is not empty; a number has 32 bits and a string has its
quotes. These are the facts about a declaration that hold because a text was its source. The package
and the classes of imports are spelled the same way.
-/
namespace IdlFrontEnd

namespace Text

/-- A word that names something. -/
structure IsFreeWord (text : String) : Prop where
  identifier : isIdentifier text = true
  free : text ∉ Grammar.keywords

/-- Words with dots between them. -/
def IsQualified (text : String) : Prop := ∀ term ∈ dotted text, IsFreeWord term

theorem joinDots_dotted (text : String) : joinDots (dotted text) = text := by
  apply String.toList_inj.1
  have again : ['.'].intercalate (text.toList.splitOn '.') = text.toList :=
    List.intercalate_splitOn '.'
  simp [joinDots, dotted, String.toList_intercalate, Function.comp_def, again]

theorem dotted_ne_nil (text : String) : dotted text ≠ [] := by
  simp [dotted, List.splitOn_ne_nil]

theorem dot_not_mem_of_isIdentifier {text : String} (identifier : isIdentifier text = true) :
    '.' ∉ text.toList := fun member =>
  absurd (isWordPart_of_isIdentifier identifier member) (by decide)

/-- Terms that are identifiers are found again between the dots. -/
theorem dotted_joinDots {terms : List String} (some : terms ≠ [])
    (identifiers : ∀ term ∈ terms, isIdentifier term = true) :
    dotted (joinDots terms) = terms :=
  dotted_joinDots_of_dotless some fun term member =>
    dot_not_mem_of_isIdentifier (identifiers term member)

/-- No term is lost between the dots, and no name at all differs from every name. -/
theorem joinDots_inj {terms others : List String}
    (identifiers : ∀ term ∈ terms, isIdentifier term = true)
    (identifiers' : ∀ term ∈ others, isIdentifier term = true)
    (same : joinDots terms = joinDots others) : terms = others := by
  have none {terms : List String} (identifiers : ∀ term ∈ terms, isIdentifier term = true)
      (empty : joinDots terms = "") : terms = [] := by
    refine Decidable.byContradiction fun some => ?_
    have single := dotted_joinDots some identifiers
    rw [empty] at single
    rw [← single] at identifiers
    exact absurd (identifiers "" (by simp [dotted])) (by decide)
  by_cases absent : terms = []
  · subst absent
    exact (none identifiers' same.symm).symm
  · have some : others ≠ [] := by
      rintro rfl
      exact absent (none identifiers same)
    rw [← dotted_joinDots absent identifiers, same, dotted_joinDots some identifiers']

theorem isQualified_joinDots {terms : List String} (some : terms ≠ [])
    (words : ∀ term ∈ terms, IsFreeWord term) : IsQualified (joinDots terms) := by
  rw [IsQualified, dotted_joinDots some fun term member => (words term member).identifier]
  exact words

end Text

open Text

structure QualifiedName.Spelled (n : QualifiedName) : Prop where
  some : n.terms ≠ []
  words : ∀ term ∈ n.terms, IsFreeWord term

theorem QualifiedName.Spelled.dotName {n : QualifiedName} (spelled : n.Spelled) :
    IsQualified n.dotName := isQualified_joinDots spelled.some spelled.words

/-- What a part of a type is before its name is resolved. -/
structure TypeExpr.SpelledPart (p : TypeExpr) : Prop where
  qualified : IsQualified p.head.written
  unfound : p.head.canonical = none
  unattached : p.head.attachment = none
  params : p.params ≠ some []

def TypeExpr.Spelled (t : TypeExpr) : Prop := ∀ p ∈ t.parts, p.SpelledPart

inductive LiteralValue.Spelled : LiteralValue → Prop
  | int {n : Int} (low : int32Min ≤ n) (high : n ≤ int32Max) : Spelled (.int n)
  | string {inside : List Char} (parts : ∀ d ∈ inside, d ≠ '"' ∧ Literal.isPlain d = true) :
      Spelled (.string (String.ofList ('"' :: inside ++ ['"'])))

structure Field.Spelled (f : Field) : Prop where
  type : f.type.Spelled
  name : IsFreeWord f.name
  default : ∀ v ∈ f.default, v.value.Spelled

structure Argument.Spelled (a : Argument) : Prop where
  type : a.type.Spelled
  name : IsFreeWord a.name

/-- There is no number, or one of 32 bits that is written. -/
inductive MethodId.Spelled : MethodId → Prop
  | unset : Spelled .unset
  | written {n : Int} (low : int32Min ≤ n) (high : n ≤ int32Max) : Spelled (.written n)

structure Method.Spelled (m : Method) : Prop where
  returnType : m.returnType.Spelled
  name : IsFreeWord m.name
  arguments : ∀ a ∈ m.arguments, a.Spelled
  id : m.id.Spelled

structure Constant.Spelled (c : Constant) : Prop where
  type : c.type.Spelled
  name : IsFreeWord c.name
  value : c.value.value.Spelled

/-- The body of a declaration of this name. -/
inductive Body.Spelled (name : String) : Body → Prop
  | parcelable {n : QualifiedName} {cppHeader : String} (own : n.dotName = name)
      (spelled : n.Spelled) : Spelled name (.parcelable n cppHeader)
  | structured {n : QualifiedName} {fields : List Field} (own : n.dotName = name)
      (spelled : n.Spelled) (each : ∀ f ∈ fields, f.Spelled) : Spelled name (.structured n fields)
  | interface {oneway : Bool} {methods : List Method} {constants : List Constant}
      (own : IsFreeWord name) (eachMethod : ∀ m ∈ methods, m.Spelled)
      (eachConstant : ∀ c ∈ constants, c.Spelled)
      (spread : oneway = true → ∀ m ∈ methods, m.oneway = true) :
      Spelled name (.interface oneway methods constants)

/-- A declaration as it is read in a file of this package. -/
structure Declaration.Spelled (package : List String) (d : Declaration) : Prop where
  package : d.header.package = package
  unattached : d.header.attachment = none
  body : d.body.Spelled d.name

structure Grammar.SourceFile.Spelled (file : Grammar.SourceFile) : Prop where
  package : ∀ n ∈ file.package, n.Spelled
  imports : ∀ i ∈ file.imports, IsQualified i.className
  types : ∀ d ∈ file.types, d.Spelled ((file.package.map QualifiedName.terms).getD [])

namespace Grammar

/-- Every lexeme has the token of a text. -/
def AllWritten (ls : List Lexeme) : Prop := ∀ l ∈ ls, l.token.Written

theorem AllWritten.of_subset {ls ms : List Lexeme} (written : AllWritten ls) (part : ms ⊆ ls) :
    AllWritten ms := fun l member => written l (part member)

/-! ## Names, types and values -/

theorem identifier_spelled {ls : List Lexeme} {n : String} (name : IsIdentifier ls n)
    (written : AllWritten ls) : IsFreeWord n := by
  obtain ⟨word, free⟩ := name
  have own := written _ List.mem_cons_self
  rw [word] at own
  cases own with
  | word identifier => exact ⟨identifier, free⟩

theorem name_spelled {ls : List Lexeme} {terms : List String} (name : IsName ls terms)
    (written : AllWritten ls) : terms ≠ [] ∧ ∀ term ∈ terms, IsFreeWord term := by
  constructor
  · obtain ⟨_, _⟩ := name
    simp
  · intro term member
    obtain ⟨ms, part, derived⟩ := separated_mem name member
    exact identifier_spelled derived (written.of_subset part)

theorem separated_some {α : Type} {mark : Mark} {D : List Lexeme → α → Prop} {ls : List Lexeme}
    {as : List α} (all : Separated mark D ls as) : as ≠ [] := by
  cases all
  simp

theorem type_spelled {ls : List Lexeme} {t : TypeExpr} (type : IsType ls t)
    (written : AllWritten ls) : t.Spelled := by
  intro p member
  obtain ⟨ms, part, own⟩ := type_parts type member
  obtain ⟨rfl, -, name, params, -⟩ := own
  obtain ⟨some, words⟩ := name_spelled name (written.of_subset fun l inside => part (by simp [inside]))
  refine ⟨isQualified_joinDots some words, rfl, rfl, ?_⟩
  cases params with
  | absent => simp
  | present _ types _ => simpa using separated_some types

theorem spelled_withAnnotations {t : TypeExpr} (spelled : t.Spelled) (before : AnnotationSet) :
    (withAnnotations t before).Spelled := by
  intro p member
  rcases mem_parts_annotate member with rfl | member
  · obtain ⟨qualified, unfound, unattached, params⟩ := spelled t (self_mem_parts t)
    exact ⟨qualified, unfound, unattached, params⟩
  · exact spelled p member

theorem decimal?_bounds {text : String} {n : Int} (h : Text.decimal? text = some n) :
    int32Min ≤ n ∧ n ≤ int32Max := by
  simpa using (Option.filter_eq_some_iff.1 h).2

theorem hexadecimal?_bounds {text : String} {n : Int} (h : Text.hexadecimal? text = some n) :
    int32Min ≤ n ∧ n ≤ int32Max := by
  obtain ⟨m, -, rfl⟩ := Option.map_eq_some_iff.1 h
  have low := @Int.le_bmod m patternCount (by decide)
  have high := @Int.bmod_lt m patternCount (by decide)
  unfold ofPattern int32Min int32Max patternCount at *
  omega

theorem numeral_spelled {location : Location} {text : String} {value : Option Int} {v : Literal}
    (bounds : ∀ n, value = some n → int32Min ≤ n ∧ n ≤ int32Max)
    (h : Literal.numeral location text value = (v, [])) : v.value.Spelled := by
  cases value with
  | none => simp [Literal.numeral] at h
  | some n =>
    obtain ⟨low, high⟩ := bounds n rfl
    simp only [Literal.numeral, Prod.mk.injEq, and_true] at h
    rw [← h]
    exact .int low high

theorem literal_spelled {ls : List Lexeme} {v : Literal} (literal : IsLiteral ls v)
    (written : AllWritten ls) : v.value.Spelled := by
  cases literal with
  | number token value =>
    unfold Literal.ofNumber at value
    split at value
    · exact numeral_spelled (fun _ => hexadecimal?_bounds) value
    · exact numeral_spelled (fun _ => decimal?_bounds) value
  | string token value =>
    have own := written _ List.mem_cons_self
    rw [token] at own
    cases own with
    | string parts =>
      unfold Literal.ofString at value
      split at value
      · simp at value
      next plain =>
        simp only [Prod.mk.injEq, and_true] at value
        rw [← value]
        refine .string fun d member => ⟨(parts d member).1, ?_⟩
        simpa using List.findIdx?_eq_none_iff.1 plain d (by simp [member])

/-! ## Members -/

theorem field_spelled {ls : List Lexeme} {f : Field} (field : IsField ls f)
    (written : AllWritten ls) : f.Spelled := by
  obtain ⟨rfl, type, name, default, -⟩ := field
  constructor
  · exact type_spelled type (written.of_subset fun l inside => by simp [inside])
  · exact identifier_spelled name (written.of_subset fun l inside => by simp [inside])
  · cases default with
    | absent => simp
    | present _ literal =>
      simp only [Option.mem_some_iff, forall_eq']
      exact literal_spelled literal (written.of_subset fun l inside => by simp [inside])

theorem constant_spelled {ls : List Lexeme} {c : Constant} (constant : IsConstant ls c)
    (written : AllWritten ls) : c.Spelled := by
  obtain ⟨rfl, -, type, name, -, value, -⟩ := constant
  constructor
  · exact type_spelled type (written.of_subset fun l inside => by simp [inside])
  · exact identifier_spelled name (written.of_subset fun l inside => by simp [inside])
  · exact literal_spelled value (written.of_subset fun l inside => by simp [inside])

theorem argument_spelled {ls : List Lexeme} {a : Argument} (argument : IsArgument ls a)
    (written : AllWritten ls) : a.Spelled := by
  obtain ⟨rfl, -, -, type, name⟩ := argument
  constructor
  · have own := type_spelled type (written.of_subset fun l inside => by simp [inside])
    exact spelled_withAnnotations own _
  · exact identifier_spelled name (written.of_subset fun l inside => by simp [inside])

theorem method_spelled {ls : List Lexeme} {m : Method} (method : IsMethod ls m)
    (written : AllWritten ls) : m.Spelled := by
  obtain ⟨rfl, -, -, type, name, arguments, number, -⟩ := method
  constructor
  · have own := type_spelled type (written.of_subset fun l inside => by simp [inside])
    exact spelled_withAnnotations own _
  · exact identifier_spelled name (written.of_subset fun l inside => by simp [inside])
  · intro a member
    cases arguments with
    | empty => cases member
    | some _ all _ =>
      obtain ⟨ms, part, derived⟩ := separated_mem all member
      exact argument_spelled derived
        (written.of_subset fun l inside => by simp [part inside])
  · cases number with
    | absent => exact .unset
    | present _ _ value =>
      obtain ⟨low, high⟩ := decimal?_bounds value
      exact .written low high

/-! ## Declarations and files -/

theorem methods_spelled {ls : List Lexeme} {ms : List Member} (members : Many IsMember ls ms)
    (written : AllWritten ls) : ∀ m ∈ ms.filterMap Member.method?, m.Spelled := by
  intro m member
  obtain ⟨_, part, derived⟩ := many_mem members (mem_methods.1 member)
  cases derived with
  | method only => exact method_spelled only (written.of_subset part)

theorem constants_spelled {ls : List Lexeme} {ms : List Member} (members : Many IsMember ls ms)
    (written : AllWritten ls) : ∀ c ∈ ms.filterMap Member.constant?, c.Spelled := by
  intro c member
  obtain ⟨_, part, derived⟩ := many_mem members (mem_constants.1 member)
  cases derived with
  | constant only => exact constant_spelled only (written.of_subset part)

theorem body_spelled {package : List String} {all bs : List Lexeme} {d : Declaration}
    (body : IsBody package all bs d) (written : AllWritten bs) : d.Spelled package := by
  cases body with
  | parcelable _ name _ =>
    obtain ⟨some, words⟩ := name_spelled name (written.of_subset fun l inside => by simp [inside])
    exact ⟨rfl, rfl, .parcelable rfl ⟨some, words⟩⟩
  | header _ name _ _ _ =>
    obtain ⟨some, words⟩ := name_spelled name (written.of_subset fun l inside => by simp [inside])
    exact ⟨rfl, rfl, .parcelable rfl ⟨some, words⟩⟩
  | structured _ name _ fields _ =>
    obtain ⟨some, words⟩ := name_spelled name (written.of_subset fun l inside => by simp [inside])
    refine ⟨rfl, rfl, .structured rfl ⟨some, words⟩ ?_⟩
    intro f member
    obtain ⟨ms, part, derived⟩ := many_mem fields member
    exact field_spelled derived (written.of_subset fun l inside => by simp [part inside])
  | @interface _ _ _ _ _ ls _ _ _ _ _ name _ members _ =>
    have own := identifier_spelled name (written.of_subset fun l inside => by simp [inside])
    have inner : AllWritten ls := written.of_subset fun l inside => by simp [inside]
    refine ⟨rfl, rfl, .interface own ?_ (constants_spelled members inner) ?_⟩
    · intro m member
      obtain ⟨found, inside, rfl⟩ := List.mem_map.1 member
      obtain ⟨returnType, name, arguments, id⟩ := methods_spelled members inner found inside
      exact ⟨returnType, name, arguments, id⟩
    · rintro rfl m member
      obtain ⟨found, -, rfl⟩ := List.mem_map.1 member
      simp

theorem declaration_spelled {package : List String} {ls : List Lexeme} {d : Declaration}
    (declaration : IsDeclaration package ls d) (written : AllWritten ls) : d.Spelled package := by
  obtain ⟨rfl, -, body⟩ := declaration
  obtain ⟨own, unattached, spelled⟩ :=
    body_spelled body (written.of_subset fun l inside => by simp [inside])
  exact ⟨own, unattached, spelled⟩

theorem file_spelled {ls : List Lexeme} {file : SourceFile} (derived : IsFile ls file)
    (written : AllWritten ls) : file.Spelled := by
  obtain ⟨opening, items⟩ := derived
  constructor
  · cases opening with
    | absent => simp
    | present _ name _ =>
      obtain ⟨some, words⟩ := name_spelled name (written.of_subset fun l inside => by simp [inside])
      simp only [Option.mem_some_iff, forall_eq']
      exact ⟨some, words⟩
  · intro i member
    obtain ⟨ms, part, item⟩ := many_mem items (mem_statements.1 member)
    cases item with
    | importing parts _ name _ =>
      subst parts
      have within : AllWritten _ := written.of_subset (List.subset_append_of_subset_right _ part)
      obtain ⟨some, words⟩ := name_spelled name (within.of_subset fun l inside => by simp [inside])
      exact isQualified_joinDots some words
  · intro d member
    obtain ⟨ms, part, item⟩ := many_mem items (mem_declarations.1 member)
    cases item with
    | declaring only =>
      exact declaration_spelled only (written.of_subset fun l inside => by simp [part inside])

theorem ofText_spelled {path text : String} {file : SourceFile}
    (silent : SourceFile.ofText path text = (file, [])) : file.Spelled := by
  obtain ⟨ls, last, whole, closing, written⟩ := Lexeme.ofText_written path text
  have derived := derived_of_silent whole closing (fun l member => (written l member).ne_eof)
    (congrArg Prod.snd silent)
  rw [silent] at derived
  exact file_spelled derived written

end Grammar

/-! ## Names seen from outside -/

/-- A canonical name has the terms of the package and then those of the name. -/
theorem Text.canonicalName_eq_joinDots_append (package : List String) (name : String) :
    canonicalName package name = joinDots (package ++ dotted name) := by
  unfold canonicalName
  split
  next none =>
    rw [List.isEmpty_iff.1 none, List.nil_append, joinDots_dotted]
  next some =>
    have nonempty : package ≠ [] := by simpa using some
    unfold joinDots
    rw [String.intercalate_append_of_ne_nil nonempty (dotted_ne_nil name)]
    exact congrArg _ (joinDots_dotted name).symm

/-- A qualified name in a package is qualified. -/
theorem Text.isQualified_canonicalName {package : List String} {name : String}
    (words : ∀ term ∈ package, IsFreeWord term) (qualified : IsQualified name) :
    IsQualified (canonicalName package name) := by
  rw [canonicalName_eq_joinDots_append]
  refine isQualified_joinDots (by simp [dotted_ne_nil]) ?_
  intro term member
  rcases List.mem_append.1 member with member | member
  · exact words term member
  · exact qualified term member

theorem Declaration.Spelled.qualified {package : List String} {d : Declaration}
    (spelled : d.Spelled package) : Text.IsQualified d.name := by
  obtain ⟨-, -, body⟩ := spelled
  generalize d.body = written at body
  cases body with
  | parcelable own name =>
    rw [← own]
    exact name.dotName
  | structured own name _ =>
    rw [← own]
    exact name.dotName
  | interface own _ _ _ =>
    have alone : Text.dotted (Text.joinDots [d.name]) = [d.name] :=
      Text.dotted_joinDots (by simp) (by simp [own.identifier])
    rw [Text.joinDots, String.intercalate_singleton] at alone
    intro term member
    rw [alone, List.mem_singleton] at member
    rw [member]
    exact own

theorem Grammar.SourceFile.Spelled.words {file : Grammar.SourceFile} (spelled : file.Spelled) :
    ∀ term ∈ (file.package.map QualifiedName.terms).getD [], Text.IsFreeWord term := by
  cases written : file.package with
  | none => simp
  | some name => exact (spelled.package name written).words

theorem Grammar.SourceFile.Spelled.canonical {file : Grammar.SourceFile} (spelled : file.Spelled) :
    ∀ d ∈ file.types, Text.IsQualified d.canonical := by
  intro d member
  have own := spelled.types d member
  unfold Declaration.canonical
  rw [own.package]
  exact Text.isQualified_canonicalName spelled.words own.qualified

end IdlFrontEnd
