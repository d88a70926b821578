import Mathlib.Data.List.Perm.Basic
import IdlFrontEnd.Proofs.Grammar.Forgetting
import IdlFrontEnd.Proofs.Grammar.Parsed

/-!
# Import statements in another order

The word `import` stands at the start of an import statement and nowhere else, not even in an
annotation. So a text can be taken apart at its import statements, and if these are put together in
another order, it is read without a report again: with the same imports, in the other order, and
with the same declarations, up to places and comments.
-/
namespace IdlFrontEnd

open scoped List

namespace Grammar

/-! ## Where the word `import` stands -/

/-- No lexeme of what `D` derives has the token. -/
def Avoids {α : Type} (t : Token) (D : List Lexeme → α → Prop) : Prop :=
  ∀ ls a, D ls a → ∀ l ∈ ls, l.token ≠ t

section
variable {α : Type} {t : Token} {D : List Lexeme → α → Prop}

theorem many_avoids (each : Avoids t D) : Avoids t (Many D) := by
  intro ls as derived
  induction derived with
  | nil => simp
  | cons first _ ih => exact List.forall_mem_append.2 ⟨each _ _ first, ih⟩

theorem separated_avoids {mark : Mark} (other : .mark mark ≠ t) (each : Avoids t D) :
    Avoids t (Separated mark D) := by
  have next : Avoids t (After mark D) := by
    rintro _ _ ⟨separator, next⟩
    exact List.forall_mem_cons.2 ⟨separator ▸ other, each _ _ next⟩
  rintro _ _ ⟨first, others⟩
  exact List.forall_mem_append.2 ⟨each _ _ first, many_avoids next _ _ others⟩

end

theorem identifier_avoids {t : Token} (reserved : ∀ text ∉ keywords, .word text ≠ t) :
    Avoids t IsIdentifier := by
  rintro _ text ⟨word, free⟩
  exact List.forall_mem_singleton.2 (word ▸ reserved text free)

theorem name_avoids {t : Token} (reserved : ∀ text ∉ keywords, .word text ≠ t)
    (other : .mark .dot ≠ t) : Avoids t IsName :=
  separated_avoids other (identifier_avoids reserved)

theorem import_reserved : ∀ text ∉ keywords, Token.word text ≠ .word "import" := by
  rintro _ free ⟨⟩
  exact free (by decide)

theorem annotations_avoid : Avoids (.word "import") IsAnnotations := by
  rintro _ _ ⟨all⟩
  refine many_avoids ?_ _ _ all
  rintro _ a ⟨opening, word⟩
  have named : Token.word a.name ≠ .word "import" := by cases a <;> decide
  simp [opening, word ▸ named]

theorem params_avoid {D : List Lexeme → TypeExpr → Prop} (each : Avoids (.word "import") D) :
    Avoids (.word "import") (IsParams D) := by
  intro ls ts params
  cases params with
  | absent => simp
  | present opening params closing =>
    have inner := separated_avoids (by decide) each _ _ params
    simpa [or_imp, forall_and, opening, closing] using inner

theorem type_avoids : Avoids (.word "import") IsType := by
  intro ls t type
  induction hn : ls.length using Nat.strongRecOn generalizing ls t with
  | ind n ih =>
    obtain ⟨rfl, annotations, name, params, mark⟩ := type
    rename_i as ns ps bs _ _ _ _
    have nonempty := List.length_pos_iff.2 (separated_inhabited identifier_inhabited _ _ name)
    simp only [List.length_append] at hn
    have within : Avoids (.word "import") fun ms t => IsType ms t ∧ ms.length ≤ ps.length :=
      fun ms t type => ih ms.length (by omega) ms t type.1 rfl
    have inner := params_avoid within _ _ (params_within params (Nat.le_refl _))
    have marks : ∀ l ∈ bs, l.token ≠ .word "import" := by
      cases mark with
      | absent => simp
      | present opening closing => simp [opening, closing]
    simp only [List.forall_mem_append]
    exact ⟨annotations_avoid _ _ annotations, name_avoids import_reserved (by decide) _ _ name,
      inner, marks⟩

theorem literal_avoids : Avoids (.word "import") IsLiteral := by
  intro ls v literal
  cases literal with
  | number token _ => simp [token]
  | string token _ => simp [token]

theorem field_avoids : Avoids (.word "import") IsField := by
  rintro _ _ ⟨rfl, type, name, default, closing⟩
  rename_i vs _ _ _ _
  have value : ∀ l ∈ vs, l.token ≠ .word "import" := by
    cases default with
    | absent => simp
    | present opening literal =>
      exact List.forall_mem_cons.2 ⟨by simp [opening], literal_avoids _ _ literal⟩
  simp only [List.forall_mem_append, List.forall_mem_singleton]
  exact ⟨type_avoids _ _ type, identifier_avoids import_reserved _ _ name, value, by simp [closing]⟩

theorem constant_avoids : Avoids (.word "import") IsConstant := by
  rintro _ _ ⟨rfl, opening, type, name, equals, value, closing⟩
  simp only [List.forall_mem_append, List.forall_mem_cons]
  exact ⟨by simp [opening], type_avoids _ _ type, identifier_avoids import_reserved _ _ name,
    by simp [equals], literal_avoids _ _ value, by simp [closing], by simp⟩

theorem argument_avoids : Avoids (.word "import") IsArgument := by
  rintro _ _ ⟨rfl, annotations, direction, type, name⟩
  rename_i ds _ _ _ _ _ _
  have keyword : ∀ l ∈ ds, l.token ≠ .word "import" := by
    cases direction with
    | absent => simp
    | @present l d word =>
      have other : Token.word d.keyword ≠ .word "import" := by cases d <;> decide
      exact List.forall_mem_singleton.2 (word ▸ other)
  simp only [List.forall_mem_append]
  exact ⟨annotations_avoid _ _ annotations, keyword, type_avoids _ _ type,
    identifier_avoids import_reserved _ _ name⟩

theorem oneway_avoids : Avoids (.word "import") IsOneway := by
  intro ls b oneway
  cases oneway with
  | absent => simp
  | present word => simp [word]

theorem method_avoids : Avoids (.word "import") IsMethod := by
  rintro _ _ ⟨rfl, annotations, oneway, type, name, arguments, number, closing⟩
  rename_i gs is _ _ _ _ _ _ _
  have inner : ∀ l ∈ gs, l.token ≠ .word "import" := by
    cases arguments with
    | empty opening closing => simp [opening, closing]
    | some opening all closing =>
      have each := separated_avoids (by decide) argument_avoids _ _ all
      simpa [or_imp, forall_and, opening, closing] using each
  have id : ∀ l ∈ is, l.token ≠ .word "import" := by
    cases number with
    | absent => simp
    | present opening token _ => simp [opening, token]
  simp only [List.forall_mem_append, List.forall_mem_singleton]
  exact ⟨annotations_avoid _ _ annotations, oneway_avoids _ _ oneway, type_avoids _ _ type,
    identifier_avoids import_reserved _ _ name, inner, id, by simp [closing]⟩

theorem member_avoids : Avoids (.word "import") IsMember := by
  intro ls m member
  cases member with
  | constant only => exact constant_avoids _ _ only
  | method only => exact method_avoids _ _ only

/-- No declaration holds the word `import`. -/
theorem declaration_avoids (package : List String) :
    Avoids (.word "import") (IsDeclaration package) := by
  rintro _ _ ⟨rfl, annotations, body⟩
  refine List.forall_mem_append.2 ⟨annotations_avoid _ _ annotations, ?_⟩
  have named {ns : List Lexeme} {terms : List String} (name : IsName ns terms) :=
    name_avoids import_reserved (by decide) _ _ name
  cases body with
  | parcelable opening name closing =>
    simpa [or_imp, forall_and, opening, closing] using named name
  | header opening name mark path closing =>
    simpa [or_imp, forall_and, opening, mark, path, closing] using named name
  | structured opening name brace fields closing =>
    have inner := many_avoids field_avoids _ _ fields
    simpa [or_imp, forall_and, opening, brace, closing] using ⟨named name, inner⟩
  | interface oneway opening name brace members closing =>
    have own := oneway_avoids _ _ oneway
    have inner := many_avoids member_avoids _ _ members
    have word := identifier_avoids import_reserved _ _ name
    simpa [or_imp, forall_and, opening, brace, closing] using ⟨own, word, inner⟩

theorem package_avoids : Avoids (.word "import") IsPackage := by
  intro ls package opening
  cases opening with
  | absent => simp
  | present opening name closing =>
    have word := name_avoids import_reserved (by decide) _ _ name
    simpa [or_imp, forall_and, opening, closing] using word

/-! ## Texts taken apart at their import statements -/

/-- The word `import` up to a semicolon, and what is written behind it up to the next one. -/
structure ImportSlot where
  name : List PieceKind
  behind : List PieceKind
  ended : .token (.mark .semicolon) ∉ name

def ImportSlot.pieces (s : ImportSlot) : List PieceKind :=
  .token (.word "import") :: (s.name ++ .token (.mark .semicolon) :: s.behind)

/-- The texts are written alike but for white space and comments and for the order of their import
statements. -/
inductive ImportsPermuted (text text' : String) : Prop
  | mk (front : List PieceKind) (slots slots' : List ImportSlot)
      (own : Piece.visible text = front ++ slots.flatMap ImportSlot.pieces)
      (other : Piece.visible text' = front ++ slots'.flatMap ImportSlot.pieces)
      (names : slots.map ImportSlot.name ~ slots'.map ImportSlot.name)
      (behind : slots.map ImportSlot.behind = slots'.map ImportSlot.behind)

theorem ImportsPermuted.symm {text text' : String} (permuted : ImportsPermuted text text') :
    ImportsPermuted text' text := by
  obtain ⟨front, slots, slots', own, other, names, behind⟩ := permuted
  exact ⟨front, slots', slots, other, own, names.symm, behind.symm⟩

def kind (l : Lexeme) : PieceKind := .token l.token

/-- The pieces are the tokens of items that look like these. -/
def ReadsAs (package : List String) (pieces : List PieceKind) (views : List Item) : Prop :=
  ∃ ls items, ls.map kind = pieces ∧ Many (IsItem package) ls items ∧
    items.map Item.placeless = views

/-- The pieces are the tokens of a name for this class. -/
def NamesClass (pieces : List PieceKind) (className : String) : Prop :=
  ∃ ns terms, ns.map kind = pieces ∧ IsName ns terms ∧ Text.joinDots terms = className

theorem peel {α : Type} {k : α} {own others front rest : List α} (absent : k ∉ own)
    (opens : ∀ x ∈ rest.head?, x = k) (whole : own ++ others = front ++ rest) :
    ∃ more, front = own ++ more ∧ others = more ++ rest := by
  rcases List.append_eq_append_iff.1 whole with ⟨more, rfl, same⟩ | ⟨more, rfl, same⟩
  · exact ⟨more, rfl, same⟩
  · cases more with
    | nil => exact ⟨[], by simp, by simpa using same.symm⟩
    | cons x more =>
      have first : x = k := opens x (by simp [same])
      exact absurd (by simp [first]) absent

theorem kind_not_mem {t : Token} {ls : List Lexeme} (avoids : ∀ l ∈ ls, l.token ≠ t) :
    PieceKind.token t ∉ ls.map kind := by
  intro member
  obtain ⟨l, inside, same⟩ := List.mem_map.1 member
  exact avoids l inside (PieceKind.token.inj same)

/-- Behind its first lexeme an item does not hold the word `import`. -/
theorem item_tail_avoids {package : List String} {l : Lexeme} {ls : List Lexeme} {i : Item}
    (item : IsItem package (l :: ls) i) : ∀ m ∈ ls, m.token ≠ .word "import" := by
  cases item with
  | importing parts opening name closing =>
    obtain ⟨-, rfl⟩ := List.cons.inj parts
    have own := name_avoids import_reserved (by decide) _ _ name
    simpa [or_imp, forall_and, closing] using own
  | declaring only => exact (List.forall_mem_cons.1 (declaration_avoids _ _ _ only)).2

section
variable {package : List String} {front rest name behind : List PieceKind} {views : List Item}

theorem ReadsAs.append {others : List Item} (first : ReadsAs package front views)
    (second : ReadsAs package rest others) : ReadsAs package (front ++ rest) (views ++ others) := by
  obtain ⟨ls, items, rfl, all, rfl⟩ := first
  obtain ⟨ms, more, rfl, all', rfl⟩ := second
  exact ⟨ls ++ ms, items ++ more, List.map_append, many_append all all', List.map_append⟩

/-- No item goes on where an import statement begins. -/
theorem ReadsAs.split (opens : ∀ x ∈ rest.head?, x = .token (.word "import"))
    (reads : ReadsAs package (front ++ rest) views) :
    ∃ us ws, ReadsAs package front us ∧ ReadsAs package rest ws ∧ views = us ++ ws := by
  obtain ⟨ls, items, kinds, all, rfl⟩ := reads
  induction all generalizing front with
  | nil =>
    obtain ⟨rfl, rfl⟩ := List.append_eq_nil_iff.1 kinds.symm
    exact ⟨[], [], ⟨[], [], rfl, .nil, rfl⟩, ⟨[], [], rfl, .nil, rfl⟩, rfl⟩
  | @cons own others i is first further ih =>
    cases front with
    | nil => exact ⟨[], _, ⟨[], [], rfl, .nil, rfl⟩, ⟨_, _, kinds, .cons first further, rfl⟩, rfl⟩
    | cons x front =>
      cases own with
      | nil => exact absurd rfl (item_inhabited _ _ first)
      | cons l ls =>
        rw [List.cons_append, List.map_cons, List.map_append, List.cons_append] at kinds
        obtain ⟨rfl, behind⟩ := List.cons.inj kinds
        obtain ⟨more, rfl, later⟩ := peel (kind_not_mem (item_tail_avoids first)) opens behind
        obtain ⟨us, ws, before, after, same⟩ := ih later
        have item : ReadsAs package ((l :: ls).map kind) [i.placeless] :=
          ⟨l :: ls, [i], rfl, by simpa using Many.cons first .nil, rfl⟩
        exact ⟨_, ws, item.append before, after, by simp [same]⟩

/-- What begins with the word `import` begins with an import statement. -/
theorem ReadsAs.statement (ended : .token (.mark .semicolon) ∉ name)
    (reads : ReadsAs package
      (.token (.word "import") :: (name ++ .token (.mark .semicolon) :: behind)) views) :
    ∃ className others, NamesClass name className ∧ ReadsAs package behind others ∧
      views = .importing ⟨.nowhere, className⟩ :: others := by
  obtain ⟨ls, items, kinds, all, rfl⟩ := reads
  cases all with
  | nil => cases kinds
  | @cons own more i is first further =>
    cases first with
    | @importing ns word semi terms parts opening isName closing =>
      subst parts
      have absent := kind_not_mem
        (name_avoids (t := .mark .semicolon) (by simp) (by decide) _ _ isName)
      have whole : ns.map kind ++ .token (.mark .semicolon) :: more.map kind =
          name ++ .token (.mark .semicolon) :: behind := by
        simpa [kind, closing, opening] using kinds
      obtain ⟨rest, rfl, later⟩ := peel absent (by simp) whole
      cases rest with
      | nil =>
        have same : more.map kind = behind := (List.cons.inj later).2
        exact ⟨_, _, ⟨ns, terms, by simp, isName, rfl⟩, ⟨more, is, same, further, rfl⟩, rfl⟩
      | cons x rest =>
        have first : .token (.mark .semicolon) = x := (List.cons.inj later).1
        exact absurd (by simp [first]) ended
    | declaring only =>
      cases own with
      | nil => exact absurd rfl (declaration_inhabited _ _ only)
      | cons l ls =>
        have other := (List.forall_mem_cons.1 (declaration_avoids _ _ _ only)).1
        have same : kind l = .token (.word "import") := (List.cons.inj kinds).1
        exact absurd (PieceKind.token.inj same) other

theorem ReadsAs.of_statement {className : String} (named : NamesClass name className)
    (reads : ReadsAs package behind views) :
    ReadsAs package (.token (.word "import") :: (name ++ .token (.mark .semicolon) :: behind))
      (.importing ⟨.nowhere, className⟩ :: views) := by
  obtain ⟨ns, terms, rfl, isName, rfl⟩ := named
  obtain ⟨ls, items, rfl, all, rfl⟩ := reads
  refine ⟨⟨.word "import", .nowhere, ""⟩ :: (ns ++ [⟨.mark .semicolon, .nowhere, ""⟩]) ++ ls, _, ?_,
    .cons (.importing rfl rfl isName rfl) all, rfl⟩
  simp [kind]

end

/-- The items of import statements for these classes, each with the items behind it. -/
def interleave (classes : List String) (behinds : List (List Item)) : List Item :=
  (List.zipWith (fun c views => .importing ⟨.nowhere, c⟩ :: views) classes behinds).flatten

/-- Import statements are read one by one, and so is what is written between them. -/
theorem readsAs_slots_iff {package : List String} {front : List PieceKind} {slots : List ImportSlot}
    {views : List Item} :
    ReadsAs package (front ++ slots.flatMap ImportSlot.pieces) views ↔
      ∃ before classes behinds, ReadsAs package front before ∧
        List.Forall₂ NamesClass (slots.map ImportSlot.name) classes ∧
        List.Forall₂ (ReadsAs package) (slots.map ImportSlot.behind) behinds ∧
        views = before ++ interleave classes behinds := by
  induction slots generalizing front views with
  | nil => simp [interleave]
  | cons s slots ih =>
    have shape : (s :: slots).flatMap ImportSlot.pieces = .token (.word "import") ::
        (s.name ++ .token (.mark .semicolon) ::
          (s.behind ++ slots.flatMap ImportSlot.pieces)) := by
      simp [ImportSlot.pieces]
    rw [shape]
    constructor
    · intro reads
      obtain ⟨before, _, first, statement, rfl⟩ := reads.split (by simp)
      obtain ⟨className, _, named, behind, rfl⟩ := statement.statement s.ended
      obtain ⟨own, classes, behinds, next, names, later, rfl⟩ := ih.1 behind
      exact ⟨before, className :: classes, own :: behinds, first, .cons named names,
        .cons next later, by simp [interleave]⟩
    · rintro ⟨before, classes, behinds, first, names, later, rfl⟩
      obtain ⟨className, classes, named, others, rfl⟩ := List.forall₂_cons_left_iff.1 names
      obtain ⟨own, behinds, next, further, rfl⟩ := List.forall₂_cons_left_iff.1 later
      have rest := ih.2 ⟨own, classes, behinds, next, others, further, rfl⟩
      simpa [interleave] using first.append (.of_statement named rest)

/-! ## Files that differ in the order of their imports -/

/-- The files import the same classes and declare the same types, up to places and comments. -/
structure SourceFile.SameButOrder (file other : SourceFile) : Prop where
  imports : file.imports.map ImportStatement.className ~ other.imports.map ImportStatement.className
  types : file.types.map Declaration.placeless = other.types.map Declaration.placeless

def Item.className? (i : Item) : Option String := i.statement?.map ImportStatement.className

theorem interleave_cons (className : String) (classes : List String) (own : List Item)
    (behinds : List (List Item)) :
    interleave (className :: classes) (own :: behinds) =
      .importing ⟨.nowhere, className⟩ :: (own ++ interleave classes behinds) := by
  simp [interleave]

theorem filterMap_interleave {classes : List String} {behinds : List (List Item)}
    (same : classes.length = behinds.length) :
    (interleave classes behinds).filterMap Item.className? ~
        classes ++ behinds.flatten.filterMap Item.className? ∧
      (interleave classes behinds).filterMap Item.declaration? =
        behinds.flatten.filterMap Item.declaration? := by
  induction classes generalizing behinds with
  | nil =>
    rw [List.eq_nil_of_length_eq_zero same.symm]
    exact ⟨.nil, rfl⟩
  | cons c classes ih =>
    cases behinds with
    | nil => cases same
    | cons own behinds =>
      obtain ⟨imports, declarations⟩ := ih (Nat.succ.inj same)
      rw [interleave_cons, List.flatten_cons, List.filterMap_append]
      constructor
      · have moved := (imports.append_left (own.filterMap Item.className?)).trans
          (List.perm_append_comm_assoc _ classes _)
        simpa [Item.className?, Item.statement?] using moved
      · rw [List.filterMap_cons_none rfl, List.filterMap_append, declarations,
          List.filterMap_append]

/-- What is read of items does not depend on their places. -/
theorem items_placeless (items : List Item) :
    (items.filterMap Item.statement?).map ImportStatement.className =
        (items.map Item.placeless).filterMap Item.className? ∧
      (items.filterMap Item.declaration?).map Declaration.placeless =
        (items.map Item.placeless).filterMap Item.declaration? := by
  constructor
  · exact map_filterMap_comm (fun i => by cases i <;> rfl) items
  · exact map_filterMap_comm (fun i => by cases i <;> rfl) items

/-- Where the import statements of a file stand in another order, there is a file too. -/
theorem file_permuted {ls : List Lexeme} {file : SourceFile} {front : List PieceKind}
    {slots slots' : List ImportSlot} (derived : IsFile ls file)
    (pieces : ls.map kind = front ++ slots.flatMap ImportSlot.pieces)
    (names : slots.map ImportSlot.name ~ slots'.map ImportSlot.name)
    (behind : slots.map ImportSlot.behind = slots'.map ImportSlot.behind) :
    ∃ ms other, ms.map kind = front ++ slots'.flatMap ImportSlot.pieces ∧ IsFile ms other ∧
      file.SameButOrder other := by
  obtain ⟨opening, all⟩ := derived
  rename_i ps is package items
  rw [List.map_append] at pieces
  have opens : ∀ x ∈ (slots.flatMap ImportSlot.pieces).head?, x = .token (.word "import") := by
    cases slots <;> simp [ImportSlot.pieces]
  obtain ⟨front, rfl, later⟩ := peel (kind_not_mem (package_avoids _ _ opening)) opens pieces
  obtain ⟨before, classes, behinds, first, named, between, same⟩ :=
    readsAs_slots_iff.1 ⟨is, items, later, all, rfl⟩
  obtain ⟨classes', named', swapped⟩ := List.perm_comp_forall₂ names.symm named
  have counted : classes.length = behinds.length := by
    rw [← named.length_eq, ← between.length_eq, List.length_map, List.length_map]
  rw [behind] at between
  obtain ⟨ms, found, kinds, derived, views⟩ :=
    readsAs_slots_iff.2 ⟨before, classes', behinds, first, named', between, rfl⟩
  refine ⟨ps ++ ms, _, by simp [kinds], .mk opening derived, ?_, ?_⟩
  · rw [(items_placeless items).1, (items_placeless found).1, same, views, List.filterMap_append,
      List.filterMap_append]
    have own := (filterMap_interleave counted).1
    have other := (filterMap_interleave (swapped.length_eq.trans counted)).1
    exact ((own.trans (swapped.symm.append_right _)).trans other.symm).append_left _
  · rw [(items_placeless items).2, (items_placeless found).2, same, views, List.filterMap_append,
      List.filterMap_append, (filterMap_interleave counted).2,
      (filterMap_interleave (swapped.length_eq.trans counted)).2]

theorem SourceFile.SameButOrder.trans {file other third : SourceFile}
    (first : file.SameButOrder other) (second : other.SameButOrder third) :
    file.SameButOrder third :=
  ⟨first.imports.trans second.imports, first.types.trans second.types⟩

theorem placeless_unplaced (d : Declaration) : (d.mapTypes .unplaced).placeless = d.placeless := by
  have type (t : TypeExpr) : t.unplaced.placeless = t.placeless := by
    obtain ⟨h, ps⟩ := t
    simp [TypeExpr.unplaced, TypeExpr.placeless, TypeExpr.mapHeads_eq, TypeHead.placeless]
  obtain ⟨header, body⟩ := d
  cases body with
  | parcelable name cppHeader => rfl
  | structured name fields =>
    simp [Declaration.mapTypes, Declaration.placeless, Body.placeless, Field.placeless, type,
      Function.comp_def]
  | interface oneway methods constants =>
    simp [Declaration.mapTypes, Declaration.placeless, Body.placeless, Method.mapTypes,
      Method.placeless, Argument.placeless, Constant.placeless, type, Function.comp_def]

theorem SourceFile.SameButOrder.of_placeless {file other : SourceFile}
    (same : file.placeless = other.placeless) : file.SameButOrder other := by
  have classes (file : SourceFile) : file.placeless.imports.map ImportStatement.className =
      file.imports.map ImportStatement.className := by
    simp [SourceFile.placeless, Function.comp_def, ImportStatement.placeless]
  constructor
  · rw [← classes, same, classes]
  · exact congrArg SourceFile.types same

theorem SourceFile.SameButOrder.of_unplaced {file other : SourceFile}
    (same : file.unplaced = other.unplaced) : file.SameButOrder other := by
  constructor
  · have imports := congrArg SourceFile.imports same
    exact .of_eq (congrArg (List.map ImportStatement.className) imports)
  · have types := congrArg (List.map Declaration.placeless) (congrArg SourceFile.types same)
    simpa [SourceFile.unplaced, Function.comp_def, placeless_unplaced] using types

/-- A text of which only the lexemes of a file are visible is read as this file, up to places and
comments. -/
theorem ofText_of_derived {text : String} {ls : List Lexeme} {file : SourceFile}
    (visible : Piece.visible text = ls.map kind) (derived : IsFile ls file) (path : String) :
    ∃ other, SourceFile.ofText path text = (other, []) ∧ file.SameButOrder other := by
  have tokens : Piece.visible text = (ls.map Lexeme.token).map PieceKind.token := by
    rw [visible, List.map_map]
    rfl
  obtain ⟨ms, last, scanned, same, closing⟩ := Lexeme.ofText_of_visible tokens path
  obtain ⟨silent, unplaced⟩ := ofLexemes_complete closing derived
  -- the text and `ls` have the same tokens, so they are read alike
  have whole : SameTokens (ls ++ [last]) (ms ++ [last]) := by
    rw [SameTokens, List.map_append, List.map_append, same]
  have alike := ofLexemes_placeless (ls ++ [last])
  rw [whole.placeless, ofLexemes_placeless, silent] at alike
  have files : (SourceFile.ofLexemes (ms ++ [last])).1.placeless =
      (SourceFile.ofLexemes (ls ++ [last])).1.placeless := congrArg Prod.fst alike
  refine ⟨(SourceFile.ofLexemes (ms ++ [last])).1, ?_,
    (SourceFile.SameButOrder.of_unplaced unplaced.symm).trans (.of_placeless files.symm)⟩
  unfold SourceFile.ofText
  rw [scanned]
  exact Prod.ext rfl (List.map_eq_nil_iff.1 (congrArg Prod.snd alike))

/-- Neither text is read without a mistake, or both are and differ in the order of their imports. -/
structure ReadAlike (path text text' : String) : Prop where
  there : ∀ file, SourceFile.ofText path text = (file, []) →
    ∃ other, SourceFile.ofText path text' = (other, []) ∧ file.SameButOrder other
  back : ∀ other, SourceFile.ofText path text' = (other, []) →
    ∃ file, SourceFile.ofText path text = (file, []) ∧ other.SameButOrder file

theorem ReadAlike.symm {path text text' : String} (alike : ReadAlike path text text') :
    ReadAlike path text' text := ⟨alike.back, alike.there⟩

/-- Texts with their import statements in another order are read alike. -/
theorem ImportsPermuted.readAlike {text text' : String} (permuted : ImportsPermuted text text')
    (path : String) : ReadAlike path text text' := by
  have there {text text' : String} (permuted : ImportsPermuted text text') (file : SourceFile)
      (read : SourceFile.ofText path text = (file, [])) :
      ∃ other, SourceFile.ofText path text' = (other, []) ∧ file.SameButOrder other := by
    obtain ⟨front, slots, slots', own, other, names, behind⟩ := permuted
    obtain ⟨ls, last, whole, closing, proper⟩ := Lexeme.ofText_closed path text
    have derived := derived_of_silent whole closing (fun l member => (proper l member).1)
      (congrArg Prod.snd read)
    rw [read] at derived
    have scanned : (Lexeme.ofText path text).2 = [] :=
      (List.append_eq_nil_iff.1 (congrArg Prod.snd read)).1
    rw [Lexeme.visible_of_silent (Prod.ext whole scanned) closing] at own
    obtain ⟨ms, found, pieces, derived, same⟩ := file_permuted derived own names behind
    obtain ⟨last, read', alike⟩ := ofText_of_derived (other.trans pieces.symm) derived path
    exact ⟨last, read', same.trans alike⟩
  exact ⟨there permuted, there permuted.symm⟩

end Grammar

end IdlFrontEnd
