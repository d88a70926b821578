import IdlFrontEnd.Build
import IdlFrontEnd.Proofs.Grammar.Acceptance
import IdlFrontEnd.Proofs.Grammar.Parsed
import IdlFrontEnd.Proofs.Grammar.Places
import IdlFrontEnd.Proofs.Token.Order

/-!
# Nodes within nodes

Where lexemes are in the order of the source, a node lies within the one it belongs to, and those
that belong to one node lie one behind the other. Both follow from the runs of lexemes that nodes
are read from: runs that are taken from one list in turn do not overlap.
-/
namespace IdlFrontEnd

/-! ## Nested nodes -/

def TypeExpr.location (t : TypeExpr) : Location := t.head.location

/-- At every depth, the parameters lie within their type, one behind the other. -/
def TypeExpr.Nested (t : TypeExpr) : Prop :=
  ∀ p ∈ t.parts, p.location.Encloses ((p.params.getD []).map TypeExpr.location)

structure Field.Nested (f : Field) : Prop where
  parts : f.location.Encloses (f.type.location :: f.default.toList.map Literal.location)
  type : f.type.Nested

structure Constant.Nested (c : Constant) : Prop where
  parts : c.location.Encloses [c.type.location, c.value.location]
  type : c.type.Nested

structure Argument.Nested (a : Argument) : Prop where
  parts : a.location.Encloses [a.type.location]
  type : a.type.Nested

structure Method.Nested (m : Method) : Prop where
  parts : m.location.Encloses (m.returnType.location :: m.arguments.map Argument.location)
  returnType : m.returnType.Nested
  arguments : ∀ a ∈ m.arguments, a.Nested

/-- The parts of a declaration at this place. Methods and constants may take turns. -/
inductive Body.Nested (place : Location) : Body → Prop
  | parcelable {n : QualifiedName} {cppHeader : String} (parts : place.Encloses [n.location]) :
      Nested place (.parcelable n cppHeader)
  | structured {n : QualifiedName} {fields : List Field}
      (parts : place.Encloses (n.location :: fields.map Field.location))
      (each : ∀ f ∈ fields, f.Nested) : Nested place (.structured n fields)
  | interface {oneway : Bool} {methods : List Method} {constants : List Constant}
      (own : place.Encloses (methods.map Method.location))
      (own' : place.Encloses (constants.map Constant.location))
      (apart : ∀ m ∈ methods, ∀ c ∈ constants, m.location.Apart c.location)
      (eachMethod : ∀ m ∈ methods, m.Nested) (eachConstant : ∀ c ∈ constants, c.Nested) :
      Nested place (.interface oneway methods constants)

namespace Grammar

/-- The package comes first. Imports and declarations may take turns. -/
structure SourceFile.Nested (file : SourceFile) : Prop where
  package : ∀ n ∈ file.package, (∀ i ∈ file.imports, n.location.Before i.location) ∧
    ∀ d ∈ file.types, n.location.Before d.location
  imports : (file.imports.map ImportStatement.location).Pairwise Location.Before
  types : (file.types.map Declaration.location).Pairwise Location.Before
  apart : ∀ i ∈ file.imports, ∀ d ∈ file.types, i.location.Apart d.location
  each : ∀ d ∈ file.types, d.body.Nested d.location

/-! ## Runs in turn -/

/-- The items are read from runs of these lexemes, one behind the other. -/
inductive InTurn {α : Type} (D : List Lexeme → α → Prop) : List Lexeme → List α → Prop
  | nil (ls : List Lexeme) : InTurn D ls []
  | cons {run rest ls : List Lexeme} {a : α} {as : List α} (part : (run ++ rest).Sublist ls)
      (own : D run a) (others : InTurn D rest as) : InTurn D ls (a :: as)

namespace InTurn

variable {α : Type} {D : List Lexeme → α → Prop} {ls ms : List Lexeme} {a : α} {as bs : List α}

theorem one (own : D ls a) : InTurn D ls [a] :=
  .cons (by simp) own (.nil [])

theorem of_sublist (turn : InTurn D ms as) (part : ms.Sublist ls) : InTurn D ls as := by
  cases turn with
  | nil => exact .nil ls
  | cons inner own others => exact .cons (inner.trans part) own others

theorem append (first : InTurn D ls as) (second : InTurn D ms bs) :
    InTurn D (ls ++ ms) (as ++ bs) := by
  induction first with
  | nil ls => exact second.of_sublist (List.sublist_append_right ls ms)
  | @cons run rest ls a as part own others ih =>
    refine .cons ?_ own ih
    rw [← List.append_assoc]
    exact part.append (List.Sublist.refl ms)

theorem left (turn : InTurn D ls as) (behind : List Lexeme) : InTurn D (ls ++ behind) as :=
  turn.of_sublist (List.sublist_append_left ls behind)

theorem right (turn : InTurn D ls as) (before : List Lexeme) : InTurn D (before ++ ls) as :=
  turn.of_sublist (List.sublist_append_right before ls)

theorem behind (turn : InTurn D ls as) (l : Lexeme) : InTurn D (l :: ls) as :=
  turn.right [l]

theorem mem (turn : InTurn D ls as) (member : a ∈ as) : ∃ run, run.Sublist ls ∧ D run a := by
  induction turn with
  | nil ls => cases member
  | @cons run rest ls a as part own others ih =>
    rcases List.mem_cons.1 member with rfl | member
    · exact ⟨run, (List.sublist_append_left run rest).trans part, own⟩
    · obtain ⟨inner, within, own⟩ := ih member
      exact ⟨inner, within.trans ((List.sublist_append_right run rest).trans part), own⟩

theorem map {β : Type} {E : List Lexeme → β → Prop} {f : α → β} (turn : InTurn D ls as)
    (each : ∀ run a, D run a → E run (f a)) : InTurn E ls (as.map f) := by
  induction turn with
  | nil ls => exact .nil ls
  | cons part own others ih => exact .cons part (each _ _ own) ih

theorem of_separated {mark : Mark} (all : Separated mark D ls as) : InTurn D ls as := by
  obtain ⟨first, others⟩ := all
  refine (one first).append ?_
  clear first
  induction others with
  | nil => exact .nil []
  | cons next _ ih =>
    obtain ⟨_, own⟩ := next
    exact ((one own).behind _).append ih

theorem of_attempts {rejects : List Lexeme → Token → Prop} {behind : List Lexeme}
    (all : Attempts D rejects behind ls as) : InTurn D ls as := by
  induction all with
  | ended => exact .nil []
  | read first _ ih => exact (one first).append ih
  | rejected _ _ ih => exact ih.right _

end InTurn

/-- The place of a node that is read from these lexemes. -/
structure IsSpan (ls : List Lexeme) (place : Location) : Prop where
  some : ls ≠ []
  own : place = span ls

section
variable {file : String} {ls ms : List Lexeme}

theorem lastPlace_mem (first : Lexeme) (ls : List Lexeme) :
    ∃ l ∈ first :: ls, lastPlace first.location ls = l.location := by
  induction ls generalizing first with
  | nil => exact ⟨first, List.mem_cons_self, rfl⟩
  | cons second ls ih =>
    obtain ⟨l, member, same⟩ := ih second
    exact ⟨l, List.mem_cons_of_mem first member, same⟩

theorem stop_le_lastPlace {first : Lexeme} (order : InSourceOrder file (first :: ls)) {l : Lexeme}
    (member : l ∈ first :: ls) : l.location.stop ≤ (lastPlace first.location ls).stop := by
  induction ls generalizing first l with
  | nil =>
    rw [List.mem_singleton.1 member]
    exact le_refl _
  | cons second ls ih =>
    have later := order.sublist (List.sublist_cons_self first _)
    rcases List.mem_cons.1 member with rfl | member
    · have ahead := (List.pairwise_cons.1 order.ordered).1 second List.mem_cons_self
      have own := order.forward second (List.mem_cons_of_mem l List.mem_cons_self)
      exact le_trans (le_trans ahead own) (ih later List.mem_cons_self)
    · exact ih later member

theorem start_le_start {first : Lexeme} (order : InSourceOrder file (first :: ls)) {l : Lexeme}
    (member : l ∈ first :: ls) : first.location.start ≤ l.location.start := by
  rcases List.mem_cons.1 member with rfl | later
  · exact le_refl _
  · exact le_trans (order.forward first List.mem_cons_self)
      ((List.pairwise_cons.1 order.ordered).1 l later)

/-- A run of lexemes lies within every list that it is taken from. -/
theorem span_within (order : InSourceOrder file ls) (part : ms.Sublist ls) (some : ms ≠ []) :
    (span ms).Within (span ls) := by
  cases ms with
  | nil => exact absurd rfl some
  | cons first ms =>
    have inside := part.subset List.mem_cons_self
    obtain ⟨last, member, place⟩ := lastPlace_mem first ms
    cases ls with
    | nil => cases inside
    | cons head ls =>
      refine ⟨?_, start_le_start order inside, ?_⟩
      · exact (order.file first inside).trans (order.file head List.mem_cons_self).symm
      · change (lastPlace first.location ms).stop ≤ (lastPlace head.location ls).stop
        rw [place]
        exact stop_le_lastPlace order (part.subset member)

/-- Of two runs in order, the first is over before the second starts. -/
theorem span_before (order : InSourceOrder file (ls ++ ms)) (some : ls ≠ []) (some' : ms ≠ []) :
    (span ls).Before (span ms) := by
  cases ls with
  | nil => exact absurd rfl some
  | cons first ls =>
    cases ms with
    | nil => exact absurd rfl some'
    | cons second ms =>
      obtain ⟨last, member, place⟩ := lastPlace_mem first ls
      constructor
      · exact (order.file first (by simp)).trans (order.file second (by simp)).symm
      · change (lastPlace first.location ls).stop ≤ second.location.start
        rw [place]
        exact (List.pairwise_append.1 order.ordered).2.2 last member second List.mem_cons_self

/-- Places of runs in turn lie within the whole, one behind the other. -/
theorem InTurn.encloses {places : List Location} (turn : InTurn IsSpan ls places)
    (order : InSourceOrder file ls) : (span ls).Encloses places := by
  constructor
  · intro place member
    obtain ⟨run, part, some, rfl⟩ := turn.mem member
    exact span_within order part some
  · induction turn with
    | nil ls => exact .nil
    | @cons run rest ls place places part own others ih =>
      obtain ⟨some, rfl⟩ := own
      have inner := order.sublist part
      have later := inner.sublist (List.sublist_append_right run rest)
      refine List.pairwise_cons.2 ⟨?_, ih later⟩
      intro place member
      obtain ⟨run', part', some', rfl⟩ := others.mem member
      exact span_before (inner.sublist ((List.Sublist.refl run).append part')) some some'

end

/-! ## Types and members -/

section
variable {file : String} {ls : List Lexeme}

theorem name_span {terms : List String} (name : IsName ls terms) : IsSpan ls (span ls) :=
  ⟨separated_inhabited identifier_inhabited _ _ name, rfl⟩

theorem literalAt_span {v : Literal} (literal : LiteralAt ls v) : IsSpan ls v.location := by
  cases literal with
  | number _ =>
    refine ⟨by simp, ?_⟩
    unfold Literal.ofNumber Literal.ofHexadecimal Literal.ofDecimal Literal.numeral
    split <;> split <;> rfl
  | string _ =>
    refine ⟨by simp, ?_⟩
    unfold Literal.ofString
    split <;> rfl

theorem typeAt_span {t : TypeExpr} (type : TypeAt ls t) : IsSpan ls t.location := by
  have some := typeAt_inhabited ls t type
  cases type
  exact ⟨some, rfl⟩

theorem params_inTurn {D : List Lexeme → TypeExpr → Prop} {ts : Option (List TypeExpr)}
    (params : IsParams D ls ts) : InTurn D ls (ts.getD []) := by
  cases params with
  | absent => exact .nil []
  | present _ all _ => exact ((InTurn.of_separated all).left _).behind _

theorem typeAt_nested {t : TypeExpr} (type : TypeAt ls t) (order : InSourceOrder file ls) :
    t.Nested := by
  have own {ls : List Lexeme} {h : TypeHead} {ts : Option (List TypeExpr)}
      (type : TypeAt ls ⟨h, ts⟩) : h.location = span ls ∧ InTurn TypeAt ls (ts.getD []) := by
    obtain ⟨rfl, _, _, params, _⟩ := type
    exact ⟨rfl, (((params_inTurn params).left _).right _).right _⟩
  induction t using TypeExpr.induction generalizing ls with
  | bare h =>
    intro p member
    rw [TypeExpr.parts_bare, List.mem_singleton] at member
    subst member
    exact ⟨by simp, .nil⟩
  | params h ps ih =>
    obtain ⟨place, turn⟩ := own type
    intro p member
    rw [TypeExpr.parts_params] at member
    rcases List.mem_cons.1 member with rfl | member
    · change h.location.Encloses (ps.map TypeExpr.location)
      rw [place]
      exact (turn.map fun _ _ => typeAt_span).encloses order
    · obtain ⟨q, inside, member⟩ := List.mem_flatMap.1 member
      obtain ⟨run, part, type⟩ := turn.mem inside
      exact ih q inside type (order.sublist part) p member

/-- Annotations move nothing. -/
theorem withAnnotations_nested {t : TypeExpr} (nested : t.Nested) (before : AnnotationSet) :
    (withAnnotations t before).Nested := by
  intro p member
  rcases mem_parts_annotate member with rfl | member
  · exact nested t (self_mem_parts t)
  · exact nested p member

theorem fieldAt_span {f : Field} (field : FieldAt ls f) : IsSpan ls f.location := by
  obtain ⟨rfl, _, _, _, _⟩ := field
  exact ⟨by simp, rfl⟩

theorem fieldAt_nested {f : Field} (field : FieldAt ls f) (order : InSourceOrder file ls) :
    f.Nested := by
  obtain ⟨rfl, type, name, default, -⟩ := field
  rename_i ts ns vs semi t n v
  have value : InTurn IsSpan vs (v.toList.map Literal.location) := by
    cases default with
    | absent => exact .nil []
    | present _ literal => exact (InTurn.one (literalAt_span literal)).behind _
  have turn := (InTurn.one (typeAt_span type)).append ((value.left [semi]).right ns)
  exact ⟨turn.encloses order, typeAt_nested type order.left⟩

theorem constantAt_span {c : Constant} (constant : ConstantAt ls c) : IsSpan ls c.location := by
  obtain ⟨rfl, _, _, _, _, _, _⟩ := constant
  exact ⟨by simp, rfl⟩

theorem constantAt_nested {c : Constant} (constant : ConstantAt ls c)
    (order : InSourceOrder file ls) : c.Nested := by
  obtain ⟨rfl, -, type, name, -, value, -⟩ := constant
  rename_i ts ns vs word eq semi t n v
  have turn := ((InTurn.one (typeAt_span type)).append
    ((((InTurn.one (literalAt_span value)).left [semi]).behind eq).right ns)).behind word
  exact ⟨turn.encloses order, typeAt_nested type order.tail.left⟩

theorem argumentAt_span {a : Argument} (argument : ArgumentAt ls a) : IsSpan ls a.location := by
  obtain ⟨rfl, _, _, _, type, _⟩ := argument
  exact ⟨by simp [typeAt_inhabited _ _ type], rfl⟩

theorem argumentAt_nested {a : Argument} (argument : ArgumentAt ls a)
    (order : InSourceOrder file ls) : a.Nested := by
  obtain ⟨rfl, -, -, -, type, -⟩ := argument
  rename_i as ds ts ns before d t n
  have turn : InTurn IsSpan (as ++ (ds ++ (ts ++ ns))) [(withAnnotations t before).location] :=
    (((InTurn.one (typeAt_span type)).left ns).right ds).right as
  have own := typeAt_nested type order.right.right.left
  exact ⟨turn.encloses order, withAnnotations_nested own before⟩

theorem argumentListAt_inTurn {args : List Argument} (arguments : ArgumentListAt ls args) :
    InTurn ArgumentAt ls args := by
  cases arguments with
  | empty _ _ => exact .nil _
  | some _ all _ => exact ((InTurn.of_separated all).left _).behind _

theorem methodAt_span {m : Method} (method : MethodAt ls m) : IsSpan ls m.location := by
  obtain ⟨rfl, _, _, _, _, _, _, _, _⟩ := method
  exact ⟨by simp, rfl⟩

theorem methodAt_nested {m : Method} (method : MethodAt ls m) (order : InSourceOrder file ls) :
    m.Nested := by
  obtain ⟨rfl, -, -, -, type, -, arguments, -, -⟩ := method
  rename_i as os ts ns gs is semi before b t n args id
  have within := argumentListAt_inTurn arguments
  have places := within.map fun _ _ => argumentAt_span
  have turn := (((InTurn.one (typeAt_span type)).append ((places.left (is ++ [semi])).right ns)).right
    os).right as
  have behind := order.right.right
  refine ⟨turn.encloses order, withAnnotations_nested (typeAt_nested type behind.left) before, ?_⟩
  intro a member
  obtain ⟨run, part, argument⟩ := within.mem member
  exact argumentAt_nested argument (behind.right.right.left.sublist part)

theorem memberAt_span {m : Member} (member : MemberAt ls m) : IsSpan ls m.location := by
  cases member with
  | constant only => exact constantAt_span only
  | method only => exact methodAt_span only

end

/-! ## Declarations and files -/

section
variable {α β : Type} {place : α → Location} {as : List α}

/-- Those that are picked out stand among all, in the same order. -/
theorem picked_sublist {pick : α → Option β} {own : β → Location}
    (same : ∀ a b, pick a = some b → own b = place a) (as : List α) :
    ((as.filterMap pick).map own).Sublist (as.map place) := by
  induction as with
  | nil => exact .slnil
  | cons a as ih =>
    rw [List.map_cons]
    cases picked : pick a with
    | none =>
      rw [List.filterMap_cons_none picked]
      exact ih.cons _
    | some b =>
      rw [List.filterMap_cons_some picked, List.map_cons, same a b picked]
      exact ih.cons_cons _

/-- Two of those that lie one behind the other are apart. -/
theorem apart_of_ordered (ordered : (as.map place).Pairwise Location.Before) {a b : α}
    (first : a ∈ as) (second : b ∈ as) (other : a ≠ b) : (place a).Apart (place b) := by
  have symmetric : Std.Symm fun a b => (place a).Apart (place b) := ⟨fun _ _ => Or.symm⟩
  have apart : as.Pairwise fun a b => (place a).Apart (place b) :=
    (List.pairwise_map.1 ordered).imp .inl
  exact apart.forall first second other

end

section
variable {file : String} {ls : List Lexeme}

/-- The body of an interface that is read from these lexemes. Whether a method is oneway does not
move it. -/
theorem members_nested {members : List Member} (turn : InTurn MemberAt ls members)
    (order : InSourceOrder file ls) (oneway : Bool) :
    Body.Nested (span ls) (.interface oneway
      ((members.filterMap Member.method?).map fun m => { m with oneway := m.oneway || oneway })
      (members.filterMap Member.constant?)) := by
  have encloses := (turn.map fun _ _ => memberAt_span).encloses order
  constructor
  case own =>
    rw [List.map_map]
    refine encloses.sublist (picked_sublist ?_ members)
    rintro (m | c) _ ⟨⟩
    rfl
  case own' =>
    refine encloses.sublist (picked_sublist ?_ members)
    rintro (m | c) _ ⟨⟩
    rfl
  case apart =>
    intro m member c member'
    obtain ⟨written, inside, rfl⟩ := List.mem_map.1 member
    exact apart_of_ordered encloses.ordered (mem_methods.1 inside) (mem_constants.1 member') nofun
  case eachMethod =>
    intro m member
    obtain ⟨written, inside, rfl⟩ := List.mem_map.1 member
    obtain ⟨run, part, own⟩ := turn.mem (mem_methods.1 inside)
    cases own with
    | method only =>
      obtain ⟨parts, returnType, arguments⟩ := methodAt_nested only (order.sublist part)
      exact ⟨parts, returnType, arguments⟩
  case eachConstant =>
    intro c member
    obtain ⟨run, part, own⟩ := turn.mem (mem_constants.1 member)
    cases own with
    | constant only => exact constantAt_nested only (order.sublist part)

theorem bodyAt_nested {package : List String} {as : List Lexeme} {d : Declaration}
    (body : BodyAt package (as ++ ls) ls d) (order : InSourceOrder file (as ++ ls)) :
    d.body.Nested (span (as ++ ls)) := by
  cases body with
  | parcelable _ name _ =>
    exact .parcelable (((((InTurn.one (name_span name)).left _).behind _).right as).encloses order)
  | header _ name _ _ _ =>
    exact .parcelable (((((InTurn.one (name_span name)).left _).behind _).right as).encloses order)
  | @structured _ left right _ _ _ _ _ name _ fields _ =>
    have turn := InTurn.of_attempts fields
    have places := (InTurn.one (name_span name)).append
      (((turn.map fun _ _ => fieldAt_span).left [right]).behind left)
    refine .structured (((places.behind _).right as).encloses order) fun f member => ?_
    obtain ⟨run, part, field⟩ := turn.mem member
    exact fieldAt_nested field (order.right.tail.right.tail.left.sublist part)
  | interface _ _ _ _ members _ =>
    have turn := InTurn.of_attempts members
    exact members_nested (((((((turn.left _).behind _).right _).behind _).right _)).right as) order _

theorem bodyAt_location {package : List String} {all : List Lexeme} {d : Declaration}
    (body : BodyAt package all ls d) : ls ≠ [] ∧ d.location = span all := by
  cases body <;> exact ⟨by simp, rfl⟩

theorem declarationAt_span {package : List String} {d : Declaration}
    (declaration : DeclarationAt package ls d) : IsSpan ls d.location := by
  obtain ⟨rfl, -, body⟩ := declaration
  obtain ⟨some, place⟩ := bodyAt_location body
  exact ⟨List.append_ne_nil_of_right_ne_nil _ some, place⟩

theorem declarationAt_nested {package : List String} {d : Declaration}
    (declaration : DeclarationAt package ls d) (order : InSourceOrder file ls) :
    d.body.Nested d.location := by
  rw [(declarationAt_span declaration).own]
  obtain ⟨rfl, -, body⟩ := declaration
  have nested := bodyAt_nested body order
  exact nested

def Item.location : Item → Location
  | .importing statement => statement.location
  | .declaring d => d.location

theorem itemAt_span {package : List String} {i : Item} (item : ItemAt package ls i) :
    IsSpan ls i.location := by
  cases item with
  | importing parts _ _ _ => exact ⟨by simp [parts], rfl⟩
  | declaring only => exact declarationAt_span only

theorem packageAt_inTurn {package : Option QualifiedName} {behind : List Lexeme}
    (clause : PackageAt behind ls package) :
    InTurn IsSpan ls (package.toList.map QualifiedName.location) := by
  cases clause with
  | absent _ => exact .nil []
  | rejected _ _ => exact .nil ls
  | present _ name _ => exact ((InTurn.one (name_span name)).left _).behind _

theorem fileAt_nested {source : SourceFile} (whole : FileAt ls source)
    (order : InSourceOrder file ls) : source.Nested := by
  obtain ⟨clause, rfl, all⟩ := whole
  rename_i ps ls package items
  have turn := InTurn.of_attempts all
  have places := (packageAt_inTurn clause).append (turn.map fun _ _ => itemAt_span)
  obtain ⟨-, ordered, first⟩ := List.pairwise_append.1 (places.encloses order).ordered
  constructor
  case package =>
    intro n named
    have ahead {i : Item} (member : i ∈ items) : n.location.Before i.location :=
      first _ (List.mem_map.2 ⟨n, Option.mem_toList.2 named, rfl⟩) _ (List.mem_map_of_mem member)
    exact ⟨fun i member => ahead (mem_statements.1 member),
      fun d member => ahead (mem_declarations.1 member)⟩
  case imports =>
    refine ordered.sublist (picked_sublist ?_ items)
    rintro (i | d) _ ⟨⟩
    rfl
  case types =>
    refine ordered.sublist (picked_sublist ?_ items)
    rintro (i | d) _ ⟨⟩
    rfl
  case apart =>
    intro i member d member'
    exact apart_of_ordered ordered (mem_statements.1 member) (mem_declarations.1 member') nofun
  case each =>
    intro d member
    obtain ⟨run, part, own⟩ := turn.mem (mem_declarations.1 member)
    cases own with
    | declaring only => exact declarationAt_nested only (order.right.sublist part)

end

theorem ofLexemes_fileAt {ls : List Lexeme} {last : Lexeme} (inside : ∀ l ∈ ls, l.token ≠ .eof)
    (closing : last.token = .eof) : FileAt ls (SourceFile.ofLexemes (ls ++ [last])).1 := by
  unfold SourceFile.ofLexemes
  cases h : sourceFile ⟨ls ++ [last], .nowhere, []⟩ with
  | error e => cases e
  | ok source next =>
    obtain ⟨⟨taken, parts, noEnd, whole⟩, ended⟩ := sourceFile_readsAt h
    rw [token_eq_nextToken] at ended
    rwa [taken_eq inside closing parts noEnd ended] at whole

/-- Whatever a text holds, the nodes that are read from it nest, as long as its lines and columns can
be counted. -/
theorem ofText_nested {path text : String}
    (counted : (Lexeme.ofTextChecked? path text).isSome = true) :
    (SourceFile.ofText path text).1.Nested := by
  obtain ⟨ls, last, whole, closing, inside⟩ := Lexeme.ofText_closed path text
  have order := Lexeme.ofText_ordered counted
  unfold SourceFile.ofText
  dsimp only
  rw [whole] at order ⊢
  exact fileAt_nested (ofLexemes_fileAt (fun l member => (inside l member).1) closing) order.left

/-- Lexemes that the end of the file closes are read to nodes that stand where the grammar says, each
from its first lexeme to its last one, and that nest, whatever was rejected between them. -/
theorem ofLexemes_places (file : String) (ls : List Lexeme) (last : Lexeme)
    (inside : ∀ l ∈ ls, l.token ≠ .eof) (closing : last.token = .eof)
    (order : InSourceOrder file ls) :
    FileAt ls (SourceFile.ofLexemes (ls ++ [last])).1 ∧
      (SourceFile.ofLexemes (ls ++ [last])).1.Nested :=
  ⟨ofLexemes_fileAt inside closing, fileAt_nested (ofLexemes_fileAt inside closing) order⟩

/-- Annotations before and behind `oneway`, and a member that is broken. -/
def annotatedText : String :=
  "import b.C;\n// Old.\n@utf8 interface I \x7b\n" ++
  "  @nullable oneway @utf8 List<b.C, D[]> f(@nullable in C c, D d);\n" ++
  "  broken @ ;\n  const int K = 1;\n\x7d\n"

/-- The places of methods with those of their types and arguments. -/
def SourceFile.methodPlaces (file : SourceFile) : List (String × List String × List String) :=
  file.types.flatMap fun d => d.methods.map fun m =>
    (m.location.text, m.returnType.parts.map (·.location.text),
      m.arguments.flatMap fun a => [a.location.text, a.type.location.text])

theorem annotatedText_places :
    ∃ ls last, (Lexeme.ofText "I" annotatedText).1 = ls ++ [last] ∧ InSourceOrder "I" ls ∧
      (SourceFile.ofLexemes (ls ++ [last])).1.methodPlaces =
        [("I:4.3-66", ["I:4.20-40", "I:4.31-34", "I:4.36-39"],
          ["I:4.43-59", "I:4.56-57", "I:4.61-64", "I:4.61-62"])] ∧
      FileAt ls (SourceFile.ofLexemes (ls ++ [last])).1 ∧
      (SourceFile.ofLexemes (ls ++ [last])).1.Nested := by
  obtain ⟨ls, last, whole, closing, inside⟩ := Lexeme.ofText_closed "I" annotatedText
  have counted : (Lexeme.ofTextChecked? "I" annotatedText).isSome = true := by decide +kernel
  have order := Lexeme.ofText_ordered counted
  rw [whole] at order
  refine ⟨ls, last, whole, order.left, ?_, ?_⟩
  · rw [← whole]
    decide +kernel
  · exact ofLexemes_places "I" ls last (fun l member => (inside l member).1) closing order.left

end Grammar

end IdlFrontEnd
