import IdlFrontEnd.Proofs.Grammar.Chunk

/-!
# A broken member costs only itself

A file is taken apart into blocks: items that the grammar derives, and interfaces and parcelables
whose bodies are chunks. Every block is read whole wherever it stands. An interface or parcelable is
read with exactly the members of its accepted chunks, nothing is reported but what there is to report
for its broken ones, and what stands behind it is read as if nothing were broken.
-/
namespace IdlFrontEnd.Grammar

/-! ## Blocks -/

/-- `annotation* [oneway] interface identifier '{'` -/
inductive OpensInterface : List Lexeme → AnnotationSet → Bool → String → Prop
  | mk {ls as os ns : List Lexeme} {word left : Lexeme} {set : AnnotationSet} {b : Bool} {n : String}
      (parts : ls = as ++ (os ++ word :: (ns ++ [left]))) (annotations : IsAnnotations as set)
      (oneway : IsOneway os b) (opening : word.token = .word "interface")
      (name : IsIdentifier ns n) (brace : left.token = .mark .openBrace) :
      OpensInterface ls set b n

/-- `annotation* parcelable name '{'`, with the place of the name. -/
inductive OpensParcelable : List Lexeme → AnnotationSet → Location → List String → Prop
  | mk {ls as ns : List Lexeme} {word left : Lexeme} {set : AnnotationSet} {terms : List String}
      (parts : ls = as ++ word :: (ns ++ [left])) (annotations : IsAnnotations as set)
      (opening : word.token = .word "parcelable") (name : IsName ns terms)
      (brace : left.token = .mark .openBrace) : OpensParcelable ls set (span ns) terms

structure InterfaceHead where
  lexemes : List Lexeme
  annotations : AnnotationSet
  oneway : Bool
  name : String
  opens : OpensInterface lexemes annotations oneway name

structure ParcelableHead where
  lexemes : List Lexeme
  annotations : AnnotationSet
  place : Location
  terms : List String
  opens : OpensParcelable lexemes annotations place terms

/-- The chunks of a body with the brace that closes it. -/
structure ChunkedBody {α : Type} (item : Rule α) where
  chunks : List (Chunk item)
  right : Lexeme
  closing : right.token = .mark .closeBrace

namespace ChunkedBody

variable {α : Type} {item : Rule α} (body : ChunkedBody item)

def lexemes : List Lexeme := body.chunks.flatMap (·.lexemes) ++ [body.right]

/-- The members of the chunks that are accepted. -/
def values : List α := body.chunks.filterMap (·.value)

/-- The reports for the chunks that are broken. -/
def told : List Diagnostic := body.chunks.flatMap (·.told)

end ChunkedBody

/-- What stands at the top level of a file. -/
inductive Block (package : List String) where
  | item (ls : List Lexeme) (a : Item) (derived : IsItem package ls a)
  | interface (head : InterfaceHead) (body : ChunkedBody member)
  | parcelable (head : ParcelableHead) (body : ChunkedBody field)

namespace Block

variable {package : List String}

def lexemes : Block package → List Lexeme
  | .item ls _ _ => ls
  | .interface head body => head.lexemes ++ body.lexemes
  | .parcelable head body => head.lexemes ++ body.lexemes

def told : Block package → List Diagnostic
  | .item .. => []
  | .interface _ body => body.told
  | .parcelable _ body => body.told

/-- What the block is read as: an interface or parcelable with the members of its accepted chunks, or
the item that is derived, up to what the grammar leaves open. -/
def Gives (block : Block package) (found : Item) : Prop :=
  match block with
  | .item _ a _ => found.unplaced = a.unplaced
  | .interface head body =>
    found = .declaring ((Declaration.ofMembers (span block.lexemes) head.name
      (leadComments block.lexemes) head.oneway body.values package).annotate head.annotations)
  | .parcelable head body =>
    found = .declaring ((Declaration.ofFields (span block.lexemes)
      ⟨head.place, head.terms, leadComments block.lexemes⟩ package body.values).annotate
        head.annotations)

end Block

/-! ## Reading blocks -/

section
variable {package : List String}

theorem InterfaceHead.starts (head : InterfaceHead) (rest : List Lexeme) :
    nextToken (head.lexemes ++ rest) ≠ .eof ∧ nextToken (head.lexemes ++ rest) ≠ .word "package" ∧
      nextToken (head.lexemes ++ rest) ≠ .word "import" := by
  obtain ⟨ls, set, b, n, ⟨rfl, annotations, oneway, opening, name, brace⟩⟩ := head
  rw [List.append_assoc]
  apply annotated_starts annotations
  cases oneway with
  | absent => simp [nextToken, opening]
  | present word => simp [nextToken, word]

theorem ParcelableHead.starts (head : ParcelableHead) (rest : List Lexeme) :
    nextToken (head.lexemes ++ rest) ≠ .eof ∧ nextToken (head.lexemes ++ rest) ≠ .word "package" ∧
      nextToken (head.lexemes ++ rest) ≠ .word "import" := by
  obtain ⟨ls, set, place, terms, ⟨rfl, annotations, opening, name, brace⟩⟩ := head
  rw [List.append_assoc]
  apply annotated_starts annotations
  simp [nextToken, opening]

theorem Block.starts (block : Block package) (rest : List Lexeme) :
    nextToken (block.lexemes ++ rest) ≠ .eof ∧
      nextToken (block.lexemes ++ rest) ≠ .word "package" := by
  cases block with
  | item ls a derived => exact item_starts derived rest
  | interface head body =>
    have starts := head.starts (body.lexemes ++ rest)
    rw [← List.append_assoc] at starts
    exact ⟨starts.1, starts.2.1⟩
  | parcelable head body =>
    have starts := head.starts (body.lexemes ++ rest)
    rw [← List.append_assoc] at starts
    exact ⟨starts.1, starts.2.1⟩

theorem declaration_consumes {ls : List Lexeme} {told : List Diagnostic} {d : Declaration}
    (starts : ∀ rest, nextToken (ls ++ rest) ≠ .word "import")
    (h : ∀ rest previous notes, ∃ place,
      declaration package ⟨ls ++ rest, previous, notes⟩ = .ok d ⟨rest, place, notes ++ told⟩) :
    Consumes (item package) ls told (· = .declaring d) := by
  intro rest previous notes
  obtain ⟨place, h⟩ := h rest previous notes
  refine ⟨.declaring d, place, ?_, rfl⟩
  unfold item
  rw [token_bind, token_eq_nextToken, if_neg (starts rest), bind_of_ok h]
  rfl

/-- A declaration that its closing brace ends is as long as its lexemes. -/
theorem place_of_body {α : Type} {item : Rule α} (ls : List Lexeme) (body : ChunkedBody item)
    (rest : List Lexeme) (previous : Location) (notes : List Diagnostic) :
    (Reading.current ⟨ls ++ body.lexemes ++ rest, previous, notes⟩).location.upTo
        body.right.location = span (ls ++ body.lexemes) ∧
      (Reading.current ⟨ls ++ body.lexemes ++ rest, previous, notes⟩).comments =
        leadComments (ls ++ body.lexemes) := by
  have some : ls ++ body.lexemes ≠ [] := by simp [ChunkedBody.lexemes]
  have last : lastPlace previous (ls ++ body.lexemes) = body.right.location := by
    rw [ChunkedBody.lexemes, lastPlace_append, lastPlace_append]
    rfl
  rw [← last]
  exact ⟨place_of_front rest previous notes some, comments_of_front rest previous notes some⟩

theorem interface_block (head : InterfaceHead) (body : ChunkedBody member) (rest : List Lexeme)
    (previous : Location) (notes : List Diagnostic) :
    declaration package ⟨head.lexemes ++ body.lexemes ++ rest, previous, notes⟩ =
      .ok ((Declaration.ofMembers (span (head.lexemes ++ body.lexemes)) head.name
          (leadComments (head.lexemes ++ body.lexemes)) head.oneway body.values package).annotate
            head.annotations)
        ⟨rest, body.right.location, notes ++ body.told⟩ := by
  obtain ⟨place, comments⟩ := place_of_body head.lexemes body rest previous notes
  rw [← place, ← comments]
  obtain ⟨ls, set, b, n, ⟨rfl, annotations, oneway, opening, name, brace⟩⟩ := head
  rename_i as os ns word left
  have hbody := body_chunks member_reads body.chunks body.closing rest left.location notes
  have start : nextToken (os ++ word :: (ns ++ left ::
      (body.chunks.flatMap (·.lexemes) ++ body.right :: rest))) = .word "interface" ∨
      nextToken (os ++ word :: (ns ++ left ::
        (body.chunks.flatMap (·.lexemes) ++ body.right :: rest))) = .word "oneway" := by
    cases oneway with
    | absent => simp [nextToken, opening]
    | present word => simp [nextToken, word]
  simp only [ChunkedBody.lexemes, List.append_assoc, List.cons_append, List.nil_append]
  exact declaration_of_interface annotations start
    (interface_of_body oneway opening name brace hbody)

theorem parcelable_block (head : ParcelableHead) (body : ChunkedBody field) (rest : List Lexeme)
    (previous : Location) (notes : List Diagnostic) :
    declaration package ⟨head.lexemes ++ body.lexemes ++ rest, previous, notes⟩ =
      .ok ((Declaration.ofFields (span (head.lexemes ++ body.lexemes))
          ⟨head.place, head.terms, leadComments (head.lexemes ++ body.lexemes)⟩ package
            body.values).annotate head.annotations)
        ⟨rest, body.right.location, notes ++ body.told⟩ := by
  obtain ⟨place, comments⟩ := place_of_body head.lexemes body rest previous notes
  rw [← place, ← comments]
  obtain ⟨ls, set, site, terms, ⟨rfl, annotations, opening, name, brace⟩⟩ := head
  rename_i as ns word left
  have hbody := body_chunks field_reads body.chunks body.closing rest left.location notes
  have start : nextToken (word :: (ns ++ left ::
      (body.chunks.flatMap (·.lexemes) ++ body.right :: rest))) = .word "parcelable" := by
    simp [nextToken, opening]
  simp only [ChunkedBody.lexemes, List.append_assoc, List.cons_append, List.nil_append]
  exact declaration_of_parcelable annotations start (parcelable_of_body opening name brace hbody)

/-- Every block is read whole wherever it stands. -/
theorem block_consumes (block : Block package) :
    Consumes (item package) block.lexemes block.told block.Gives := by
  cases block with
  | item ls a derived =>
    intro rest previous notes
    obtain ⟨found, h, alike⟩ := item_complete package ls a rest previous notes derived trivial
    refine ⟨found, lastPlace previous ls, ?_, alike⟩
    rw [Block.told, List.append_nil]
    exact h
  | interface head body =>
    refine declaration_consumes (fun rest => ?_) fun rest previous notes =>
      ⟨_, interface_block head body rest previous notes⟩
    rw [Block.lexemes, List.append_assoc]
    exact (head.starts _).2.2
  | parcelable head body =>
    refine declaration_consumes (fun rest => ?_) fun rest previous notes =>
      ⟨_, parcelable_block head body rest previous notes⟩
    rw [Block.lexemes, List.append_assoc]
    exact (head.starts _).2.2

end

theorem forall₂_some {α β : Type} {R : α → β → Prop} {as : List α} {os : List (Option β)}
    (all : List.Forall₂ (fun a o => ∃ b, o = some b ∧ R a b) as os) :
    ∃ bs, os = bs.map some ∧ List.Forall₂ R as bs := by
  induction all with
  | nil => exact ⟨[], rfl, .nil⟩
  | cons first _ ih =>
    obtain ⟨b, rfl, first⟩ := first
    obtain ⟨bs, rfl, others⟩ := ih
    exact ⟨b :: bs, rfl, .cons first others⟩

/-- Every block is read whole wherever it stands, an interface or parcelable with exactly the members
of its accepted chunks. A file of blocks is read as what its blocks are read as, one by one, and all
that is reported is what its broken chunks are reported for, of which each has a report. -/
theorem brokenMembers_cost_themselves {package : Option QualifiedName} {ps : List Lexeme}
    (opening : IsPackage ps package)
    (blocks : List (Block ((package.map QualifiedName.terms).getD []))) {last : Lexeme}
    (closing : last.token = .eof) :
    (∀ block ∈ blocks, Consumes (item ((package.map QualifiedName.terms).getD [])) block.lexemes
      block.told block.Gives) ∧
    (∃ found, SourceFile.ofLexemes (ps ++ (blocks.flatMap (·.lexemes) ++ [last])) =
        (⟨package, found.filterMap Item.statement?, found.filterMap Item.declaration?⟩,
          blocks.flatMap (·.told)) ∧
      List.Forall₂ Block.Gives blocks found) ∧
    (∀ chunk : Chunk member, chunk.told = [] ↔ chunk.value.isSome = true) ∧
    ∀ chunk : Chunk field, chunk.told = [] ↔ chunk.value.isSome = true := by
  refine ⟨fun block _ => block_consumes block, ?_, Chunk.told_eq_nil_iff, Chunk.told_eq_nil_iff⟩
  have behind : nextToken (blocks.flatMap (·.lexemes) ++ [last]) ≠ .word "package" := by
    cases blocks with
    | nil => simp [nextToken, closing]
    | cons block blocks =>
      rw [List.flatMap_cons, List.append_assoc]
      exact (block.starts _).2
  have hpackage := packageClause_complete.exact _ .nowhere [] opening behind
  have each (block : Block ((package.map QualifiedName.terms).getD [])) :
      Consumes (attempt afterDeclaration (item ((package.map QualifiedName.terms).getD [])))
        block.lexemes block.told (fun o => ∃ a, o = some a ∧ block.Gives a) := by
    intro rest previous notes
    obtain ⟨a, place, h, gives⟩ := block_consumes block rest previous notes
    refine ⟨some a, place, ?_, a, rfl, gives⟩
    unfold attempt
    rw [h]
  have stop : decide (nextToken [last] ≠ .eof) = false := by simp [nextToken, closing]
  obtain ⟨found, place, hfound, given⟩ := manyWhile_consumes (fun t => decide (t ≠ .eof))
    (fun block (_ : block ∈ blocks) => each block)
    (fun block _ rest => decide_eq_true (block.starts rest).1) stop (lastPlace .nowhere ps) []
  obtain ⟨items, rfl, gives⟩ := forall₂_some given
  refine ⟨items, ?_, gives⟩
  have whole : sourceFile ⟨ps ++ (blocks.flatMap (·.lexemes) ++ [last]), .nowhere, []⟩ =
      .ok ⟨package, ((items.map some).filterMap id).filterMap Item.statement?,
        ((items.map some).filterMap id).filterMap Item.declaration?⟩
        ⟨[last], place, blocks.flatMap (·.told)⟩ := by
    unfold sourceFile
    rw [bind_of_ok hpackage, bind_of_ok hfound]
    rfl
  unfold SourceFile.ofLexemes
  rw [whole, List.filterMap_map]
  simp

/-- `interface IFoo { void a(in int x; void ok(); int = 3; }`: an argument list that is not closed and
a method without a name around a method. -/
def twoBroken : Block [] :=
  .interface
    ⟨bare [.word "interface", .word "IFoo", .mark .openBrace], .ofList [], false, "IFoo",
      .mk rfl (.mk .nil) .absent rfl (.mk rfl (by decide)) rfl⟩
    ⟨[bare [.word "void", .word "a", .mark .openParen, .word "in", .word "int", .word "x",
        .mark .semicolon],
      bare [.word "void", .word "ok", .mark .openParen, .mark .closeParen, .mark .semicolon],
      bare [.word "int", .mark .equals, .number "3", .mark .semicolon]].filterMap
        (Chunk.of? member),
      ⟨.mark .closeBrace, .nowhere, ""⟩, rfl⟩

theorem twoBroken_read :
    twoBroken.lexemes = bare [.word "interface", .word "IFoo", .mark .openBrace, .word "void",
      .word "a", .mark .openParen, .word "in", .word "int", .word "x", .mark .semicolon,
      .word "void", .word "ok", .mark .openParen, .mark .closeParen, .mark .semicolon, .word "int",
      .mark .equals, .number "3", .mark .semicolon, .mark .closeBrace] ∧
    ∃ found, SourceFile.ofLexemes ([] ++ ([twoBroken].flatMap (·.lexemes) ++ bare [.eof])) =
        (⟨none, found.filterMap Item.statement?, found.filterMap Item.declaration?⟩,
          [twoBroken].flatMap (·.told)) ∧
      List.Forall₂ Block.Gives [twoBroken] found ∧
      twoBroken.told.map Diagnostic.message =
        ["syntax error: expected ')', got ';'", "syntax error: expected identifier, got '='"] := by
  have closing : Lexeme.token ⟨.eof, .nowhere, ""⟩ = .eof := rfl
  obtain ⟨-, ⟨found, h, gives⟩, -⟩ :=
    brokenMembers_cost_themselves .absent [twoBroken] closing
  exact ⟨by decide +kernel, found, h, gives, by decide +kernel⟩

end IdlFrontEnd.Grammar
