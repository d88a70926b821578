import IdlFrontEnd.Proofs.Grammar.Progress
import IdlFrontEnd.Proofs.Grammar.SourceFile

/-!
# Where nodes stand

A node is read from a run of lexemes, also in a file with mistakes: its place reaches from the start
of the first of them to the end of the last one, and the comments it carries are those before the
first. Unlike the grammar, the relations below take annotations that do not exist and literals
without a value, and between members and between declarations they pass over what was rejected. They
are exact where the grammar leaves a choice: all annotations in front of a method or an argument are
its own, and its type starts behind them.
-/
namespace IdlFrontEnd.Grammar

/-! ## What a node is read from -/

/-- `@ word`, whether or not the word names an annotation. -/
inductive AnnotationAt : List Lexeme → Option Annotation → Prop
  | mk {sign l : Lexeme} {name : String} {found : Option Annotation}
      (opening : sign.token = .mark .at) (word : l.token = .word name)
      (named : found = Annotation.ofName? name) : AnnotationAt [sign, l] found

/-- All that exist among these annotations. -/
inductive AnnotationsAt : List Lexeme → AnnotationSet → Prop
  | mk {ls : List Lexeme} {found : List (Option Annotation)} (all : Many AnnotationAt ls found) :
      AnnotationsAt ls (.ofList (found.filterMap id))

/-- `annotation* name [< type (, type)* >] [ '[' ']' ]` -/
inductive TypeAt : List Lexeme → TypeExpr → Prop
  | mk {ls as ns ps bs : List Lexeme} {set : AnnotationSet} {terms : List String}
      {ts : Option (List TypeExpr)} {b : Bool} (parts : ls = as ++ (ns ++ (ps ++ bs)))
      (annotations : AnnotationsAt as set) (name : IsName ns terms)
      (params : IsParams TypeAt ps ts) (mark : IsArrayMark bs b) :
      TypeAt ls ⟨.fresh (span ls) (Text.joinDots terms) b (leadComments ls) set, ts⟩

/-- A number or a string, with or without a value. -/
inductive LiteralAt : List Lexeme → Literal → Prop
  | number {l : Lexeme} {text : String} (token : l.token = .number text) :
      LiteralAt [l] (Literal.ofNumber l.location text).1
  | string {l : Lexeme} {quoted : String} (token : l.token = .string quoted) :
      LiteralAt [l] (Literal.ofString l.location quoted).1

/-- `[= literal]` -/
inductive DefaultAt : List Lexeme → Option Literal → Prop
  | absent : DefaultAt [] none
  | present {eq : Lexeme} {ls : List Lexeme} {v : Literal} (opening : eq.token = .mark .equals)
      (literal : LiteralAt ls v) : DefaultAt (eq :: ls) (some v)

/-- `type identifier [= literal] ;` -/
inductive FieldAt : List Lexeme → Field → Prop
  | mk {ls ts ns vs : List Lexeme} {semi : Lexeme} {t : TypeExpr} {n : String}
      {v : Option Literal} (parts : ls = ts ++ (ns ++ (vs ++ [semi]))) (type : TypeAt ts t)
      (name : IsIdentifier ns n) (default : DefaultAt vs v)
      (closing : semi.token = .mark .semicolon) : FieldAt ls ⟨span ls, t, n, v⟩

/-- `const type identifier = literal ;` -/
inductive ConstantAt : List Lexeme → Constant → Prop
  | mk {ls ts ns vs : List Lexeme} {word eq semi : Lexeme} {t : TypeExpr} {n : String}
      {v : Literal} (parts : ls = word :: (ts ++ (ns ++ eq :: (vs ++ [semi]))))
      (opening : word.token = .word "const") (type : TypeAt ts t) (name : IsIdentifier ns n)
      (equals : eq.token = .mark .equals) (value : LiteralAt vs v)
      (closing : semi.token = .mark .semicolon) : ConstantAt ls ⟨span ls, t, n, v⟩

/-- `annotation* [in | out | inout] type identifier`, where no annotation is left for the type unless
a direction stands before it. -/
inductive ArgumentAt : List Lexeme → Argument → Prop
  | mk {ls as ds ts ns : List Lexeme} {before : AnnotationSet} {d : Option Direction}
      {t : TypeExpr} {n : String} (parts : ls = as ++ (ds ++ (ts ++ ns)))
      (annotations : AnnotationsAt as before) (all : nextToken (ds ++ (ts ++ ns)) ≠ .mark .at)
      (direction : IsDirection ds d) (type : TypeAt ts t) (name : IsIdentifier ns n) :
      ArgumentAt ls ⟨span ls, d, withAnnotations t before, n⟩

/-- `( [argument (, argument)*] )` -/
inductive ArgumentListAt : List Lexeme → List Argument → Prop
  | empty {left right : Lexeme} (opening : left.token = .mark .openParen)
      (closing : right.token = .mark .closeParen) : ArgumentListAt [left, right] []
  | some {left right : Lexeme} {ls : List Lexeme} {args : List Argument}
      (opening : left.token = .mark .openParen) (all : Separated .comma ArgumentAt ls args)
      (closing : right.token = .mark .closeParen) :
      ArgumentListAt (left :: (ls ++ [right])) args

/-- `annotation* [oneway] type identifier ( [argument (, argument)*] ) [= number] ;`, where no
annotation is left for the type unless `oneway` stands before it. -/
inductive MethodAt : List Lexeme → Method → Prop
  | mk {ls as os ts ns gs is : List Lexeme} {semi : Lexeme} {before : AnnotationSet} {b : Bool}
      {t : TypeExpr} {n : String} {args : List Argument} {id : MethodId}
      (parts : ls = as ++ (os ++ (ts ++ (ns ++ (gs ++ (is ++ [semi]))))))
      (annotations : AnnotationsAt as before)
      (all : nextToken (os ++ (ts ++ (ns ++ (gs ++ (is ++ [semi]))))) ≠ .mark .at)
      (oneway : IsOneway os b) (type : TypeAt ts t) (name : IsIdentifier ns n)
      (arguments : ArgumentListAt gs args) (number : IsMethodId is id)
      (closing : semi.token = .mark .semicolon) :
      MethodAt ls ⟨span ls, b, leadComments ls, withAnnotations t before, n, args, id⟩

/-- `constant | method` -/
inductive MemberAt : List Lexeme → Member → Prop
  | constant {ls : List Lexeme} {c : Constant} (only : ConstantAt ls c) :
      MemberAt ls (.constant c)
  | method {ls : List Lexeme} {m : Method} (only : MethodAt ls m) : MemberAt ls (.method m)

/-- The rule rejects what starts with these lexemes, and reading goes on right behind them, at this
token. -/
def Rejects {α : Type} (rule : Rule α) (recover : List Lexeme → List Lexeme) (ls : List Lexeme)
    (next : Token) : Prop :=
  ∃ r e last, rule r = .error e last ∧ r.rest = ls ++ recover last.rest ∧
    nextToken (recover last.rest) = next

/-- One item behind the other up to what stands behind all of them. Nothing is passed over but what is
rejected where the next item would be read. -/
inductive Attempts {α : Type} (item : List Lexeme → α → Prop)
    (rejects : List Lexeme → Token → Prop) (behind : List Lexeme) : List Lexeme → List α → Prop
  | ended : Attempts item rejects behind [] []
  | read {ls rest : List Lexeme} {a : α} {as : List α} (first : item ls a)
      (others : Attempts item rejects behind rest as) :
      Attempts item rejects behind (ls ++ rest) (a :: as)
  | rejected {ls rest : List Lexeme} {as : List α}
      (broken : rejects ls (nextToken (rest ++ behind)))
      (others : Attempts item rejects behind rest as) : Attempts item rejects behind (ls ++ rest) as

/-- What stands behind the annotations of a declaration that is `all` of these lexemes. -/
inductive BodyAt (package : List String) (all : List Lexeme) : List Lexeme → Declaration → Prop
  | parcelable {word semi : Lexeme} {ns : List Lexeme} {terms : List String}
      (opening : word.token = .word "parcelable") (name : IsName ns terms)
      (closing : semi.token = .mark .semicolon) :
      BodyAt package all (word :: (ns ++ [semi]))
        (.ofParcelable (span all) ⟨span ns, terms, leadComments all⟩ package "")
  | header {word keyword l semi : Lexeme} {ns : List Lexeme} {terms : List String}
      {quoted : String} (opening : word.token = .word "parcelable") (name : IsName ns terms)
      (mark : keyword.token = .word "cpp_header") (path : l.token = .string quoted)
      (closing : semi.token = .mark .semicolon) :
      BodyAt package all (word :: (ns ++ [keyword, l, semi]))
        (.ofParcelable (span all) ⟨span ns, terms, leadComments all⟩ package (unquoted quoted))
  | structured {word left right : Lexeme} {ns ls : List Lexeme} {terms : List String}
      {fs : List Field} (opening : word.token = .word "parcelable") (name : IsName ns terms)
      (brace : left.token = .mark .openBrace)
      (fields : Attempts FieldAt (Rejects field afterMember) [right] ls fs)
      (closing : right.token = .mark .closeBrace) :
      BodyAt package all (word :: (ns ++ left :: (ls ++ [right])))
        (.ofFields (span all) ⟨span ns, terms, leadComments all⟩ package fs)
  | interface {word left right : Lexeme} {os ns ls : List Lexeme} {b : Bool} {n : String}
      {ms : List Member} (oneway : IsOneway os b) (opening : word.token = .word "interface")
      (name : IsIdentifier ns n) (brace : left.token = .mark .openBrace)
      (members : Attempts MemberAt (Rejects member afterMember) [right] ls ms)
      (closing : right.token = .mark .closeBrace) :
      BodyAt package all (os ++ word :: (ns ++ left :: (ls ++ [right])))
        (.ofMembers (span all) n (leadComments all) b ms package)

/-- `annotation* (parcelable … | [oneway] interface …)` -/
inductive DeclarationAt (package : List String) : List Lexeme → Declaration → Prop
  | mk {ls as bs : List Lexeme} {set : AnnotationSet} {d : Declaration} (parts : ls = as ++ bs)
      (annotations : AnnotationsAt as set) (body : BodyAt package ls bs d) :
      DeclarationAt package ls (d.annotate set)

/-- `import name ; | declaration` -/
inductive ItemAt (package : List String) : List Lexeme → Item → Prop
  | importing {ls ns : List Lexeme} {word semi : Lexeme} {terms : List String}
      (parts : ls = word :: (ns ++ [semi])) (opening : word.token = .word "import")
      (name : IsName ns terms) (closing : semi.token = .mark .semicolon) :
      ItemAt package ls (.importing ⟨span ls, Text.joinDots terms⟩)
  | declaring {ls : List Lexeme} {d : Declaration} (only : DeclarationAt package ls d) :
      ItemAt package ls (.declaring d)

/-- `[package name ;]` in front of these lexemes. A statement that is rejected gives no package. -/
inductive PackageAt (behind : List Lexeme) : List Lexeme → Option QualifiedName → Prop
  | absent (other : nextToken behind ≠ .word "package") : PackageAt behind [] none
  | rejected {ls : List Lexeme} (opening : nextToken (ls ++ behind) = .word "package")
      (broken : Rejects packageStatement afterDeclaration ls (nextToken behind)) :
      PackageAt behind ls none
  | present {word semi : Lexeme} {ns : List Lexeme} {terms : List String}
      (opening : word.token = .word "package") (name : IsName ns terms)
      (closing : semi.token = .mark .semicolon) :
      PackageAt behind (word :: (ns ++ [semi])) (some ⟨span ns, terms, leadComments ns⟩)

/-- `[package name ;] (import name ; | declaration)*`, with what was rejected in between. -/
inductive FileAt : List Lexeme → SourceFile → Prop
  | mk {ps ls : List Lexeme} {package : Option QualifiedName} {terms : List String}
      {items : List Item} (opening : PackageAt ls ps package)
      (named : terms = (package.map QualifiedName.terms).getD [])
      (all : Attempts (ItemAt terms) (Rejects (item terms) afterDeclaration) [] ls items) :
      FileAt (ps ++ ls)
        ⟨package, items.filterMap Item.statement?, items.filterMap Item.declaration?⟩

/-! ## Passing lexemes -/

/-- Between two readings exactly these lexemes were taken, whatever was reported. The end of the file
is not among them. -/
structure Passed (r : Reading) (ls : List Lexeme) (next : Reading) : Prop where
  rest : r.rest = ls ++ next.rest
  previous : next.previous = lastPlace r.previous ls
  inside : ∀ l ∈ ls, l.token ≠ .eof

theorem Took.passed {r next : Reading} {ls : List Lexeme} (took : Took r ls next) :
    Passed r ls next :=
  ⟨took.rest, took.previous, took.inside⟩

namespace Passed

variable {r mid next : Reading} {l : Lexeme} {ls as bs : List Lexeme}

/-- Nothing would be reported if the log were left as it was. -/
theorem took (passed : Passed r ls next) : Took r ls { next with notes := r.notes } :=
  ⟨passed.rest, passed.previous, rfl, passed.inside⟩

theorem refl (r : Reading) : Passed r [] r := (Took.refl r).passed

theorem trans (first : Passed r as mid) (second : Passed mid bs next) :
    Passed r (as ++ bs) next := by
  have took : Took r (as ++ bs) { next with notes := r.notes } :=
    first.took.trans ⟨second.rest, second.previous, rfl, second.inside⟩
  exact ⟨took.rest, took.previous, took.inside⟩

theorem cons (first : Passed r [l] mid) (second : Passed mid ls next) : Passed r (l :: ls) next :=
  first.trans second

theorem span (passed : Passed r ls next) (some : ls ≠ []) :
    r.current.location.upTo next.previous = span ls :=
  passed.took.span some

theorem comments (passed : Passed r ls next) (some : ls ≠ []) :
    r.current.comments = leadComments ls :=
  passed.took.comments some

/-- The token that was next is that of the first lexeme passed. -/
theorem token (passed : Passed r ls next) (some : ls ≠ []) : r.token = nextToken ls := by
  rw [token_eq_nextToken, passed.rest]
  cases ls with
  | nil => exact absurd rfl some
  | cons l ls => rfl

end Passed

/-- What the rule gives is read from what it passes. -/
def ReadsAt {ε α : Type} (D : List Lexeme → α → Prop) (rule : EStateM ε Reading α) : Prop :=
  ∀ r a next, rule r = .ok a next → ∃ ls, Passed r ls next ∧ D ls a

theorem accept_passed {t : Token} {r next : Reading} {b : Bool} (inside : t ≠ .eof)
    (h : accept t r = .ok b next) :
    (b = true ∧ ∃ l, l.token = t ∧ Passed r [l] next) ∨ (b = false ∧ next = r) := by
  rcases accept_sound inside h with ⟨rfl, l, token, took⟩ | same
  · exact .inl ⟨rfl, l, token, took.passed⟩
  · exact .inr same

theorem expect_passed {t : Token} {r next : Reading} {u : Unit} (inside : t ≠ .eof)
    (h : expect t r = .ok u next) : ∃ l, l.token = t ∧ Passed r [l] next := by
  obtain ⟨l, token, took⟩ := expect_sound inside h
  exact ⟨l, token, took.passed⟩

theorem take_passed {r : Reading} (inside : r.token ≠ .eof) :
    ∃ l, l.token = r.token ∧ Passed r [l] r.take := by
  obtain ⟨l, token, took⟩ := Took.take inside
  exact ⟨l, token, took.passed⟩

/-! ## Loops -/

/-- The items of a loop are read one behind the other. -/
theorem Rounds.readsAt {ε α : Type} {D : List Lexeme → α → Prop} {more : Token → Bool}
    {item : EStateM ε Reading α} {r last : Reading} {as : List α}
    (rounds : Rounds more item r (.ok as last))
    (each : ∀ r a next, more r.token = true → item r = .ok a next →
      ∃ ls, Passed r ls next ∧ D ls a) :
    ∃ ls, Passed r ls last ∧ Many D ls as := by
  generalize hresult : EStateM.Result.ok as last = result at rounds
  induction rounds generalizing as with
  | ended stop =>
    cases hresult
    exact ⟨[], .refl _, .nil⟩
  | round go given advance others ih =>
    cases hresult
    obtain ⟨ls, first, derived⟩ := each _ _ _ go given
    obtain ⟨rest, later, all⟩ := ih rfl
    exact ⟨ls ++ rest, first.trans later, .cons derived all⟩
  | broken | roundBroken => cases hresult

/-- Items behind separators. -/
theorem after_readsAt {α : Type} {mark : Mark} {D : List Lexeme → α → Prop} {item : Rule α}
    (moves : Moves true Any item) (reads : ReadsAt D item) :
    ReadsAt (Many (After mark D)) (manyWhile (· = .mark mark) do take; item) := by
  intro r as next h
  have each : Moves true (fun t => decide (t = .mark mark) = true) (do take; item) :=
    (Moves.take fun t same => by simp [of_decide_eq_true same]).lead fun _ => moves.weaken
  have rounds := manyWhile_rounds each r
  rw [h] at rounds
  refine rounds.readsAt fun r a next wanted given => ?_
  obtain ⟨_, mid, htake, given⟩ := bind_eq_ok.1 given
  cases htake
  have isMark := of_decide_eq_true wanted
  obtain ⟨l, hl, passedMark⟩ := take_passed (r := r) (by simp [isMark])
  obtain ⟨ls, passed, derived⟩ := reads _ a next given
  exact ⟨l :: ls, passedMark.cons passed, .mk (hl.trans isMark) derived⟩

theorem separated_readsAt {α : Type} {D : List Lexeme → α → Prop} {item : Rule α}
    (moves : Moves true Any item) (reads : ReadsAt D item) :
    ReadsAt (Separated .comma D) (separated item) := by
  intro r as next h
  obtain ⟨first, mid, hfirst, h⟩ := bind_eq_ok.1 h
  obtain ⟨others, last, hothers, h⟩ := bind_eq_ok.1 h
  cases h
  obtain ⟨ls, passedFirst, derivedFirst⟩ := reads r first mid hfirst
  obtain ⟨bs, passedOthers, derived⟩ := after_readsAt moves reads mid others next hothers
  exact ⟨ls ++ bs, passedFirst.trans passedOthers, .mk derivedFirst derived⟩

/-! ## Names, annotations, types and literals -/

theorem identifier_readsAt : ReadsAt IsIdentifier identifier := by
  intro r text next h
  obtain ⟨ls, took, name⟩ := identifier_took h
  exact ⟨ls, took.passed, name⟩

theorem qualifiedNameWith_readsAt (comments : String) :
    ReadsAt (fun ls n => ∃ terms, IsName ls terms ∧ n = ⟨span ls, terms, comments⟩)
      (qualifiedNameWith comments) := by
  intro r n next h
  obtain ⟨start, mid, hstart, h⟩ := bind_eq_ok.1 h
  cases hstart
  obtain ⟨term, mid, hterm, h⟩ := bind_eq_ok.1 h
  obtain ⟨terms, last, hterms, h⟩ := bind_eq_ok.1 h
  cases h
  obtain ⟨ls, passedFirst, first⟩ := identifier_readsAt r term mid hterm
  obtain ⟨bs, passedOthers, others⟩ :=
    after_readsAt Moves.identifier identifier_readsAt mid terms next hterms
  have name : IsName (ls ++ bs) (term :: terms) := .mk first others
  have passed := passedFirst.trans passedOthers
  have some := separated_inhabited identifier_inhabited _ _ name
  exact ⟨ls ++ bs, passed, term :: terms, name, by rw [← passed.span some]⟩

theorem qualifiedName_readsAt :
    ReadsAt (fun ls n => ∃ terms, IsName ls terms ∧ n = ⟨span ls, terms, leadComments ls⟩)
      qualifiedName := by
  intro r n next h
  obtain ⟨start, mid, hstart, h⟩ := bind_eq_ok.1 h
  cases hstart
  obtain ⟨ls, passed, terms, name, rfl⟩ := qualifiedNameWith_readsAt _ r n next h
  have some := separated_inhabited identifier_inhabited _ _ name
  exact ⟨ls, passed, terms, name, by rw [passed.comments some]⟩

/-- A report changes neither what is left nor where reading stands. -/
theorem reported_passed {α : Type} (found : α × List Diagnostic) {r next : Reading} {a : α}
    (h : reported found r = .ok a next) : a = found.1 ∧ Passed r [] next := by
  cases h
  exact ⟨rfl, rfl, rfl, by simp⟩

theorem annotation_readsAt (r : Reading) (found : Option Annotation) (next : Reading)
    (wanted : decide (r.token = .mark .at) = true) (h : annotation r = .ok found next) :
    ∃ ls, Passed r ls next ∧ AnnotationAt ls found := by
  obtain ⟨start, mid, hstart, h⟩ := bind_eq_ok.1 h
  cases hstart
  obtain ⟨_, mid, htake, h⟩ := bind_eq_ok.1 h
  cases htake
  obtain ⟨seen, mid, hseen, h⟩ := bind_eq_ok.1 h
  cases hseen
  have isSign := of_decide_eq_true wanted
  obtain ⟨sign, hsign, passedSign⟩ := take_passed (r := r) (by simp [isSign])
  cases hword : r.take.token with
  | word name =>
    rw [hword] at h
    obtain ⟨l, hl, passedWord⟩ := take_passed (r := r.take) (by simp [hword])
    obtain ⟨rfl, passedReport⟩ := reported_passed (annotationNamed _ name) h
    refine ⟨[sign, l], passedSign.trans (passedWord.trans passedReport),
      .mk (hsign.trans isSign) (hl.trans hword) ?_⟩
    unfold annotationNamed
    cases Annotation.ofName? name <;> rfl
  | number | string | mark | eof =>
    rw [hword] at h
    cases h

/-- All annotations that stand there are read. -/
theorem annotations_readsAt {r next : Reading} {set : AnnotationSet}
    (h : annotations r = .ok set next) :
    ∃ ls, Passed r ls next ∧ AnnotationsAt ls set ∧ next.token ≠ .mark .at := by
  obtain ⟨found, mid, hfound, h⟩ := bind_eq_ok.1 h
  cases h
  have rounds := manyWhile_rounds Moves.annotation r
  rw [hfound] at rounds
  obtain ⟨ls, passed, all⟩ := rounds.readsAt annotation_readsAt
  exact ⟨ls, passed, .mk all, of_decide_eq_false rounds.stopped⟩

theorem typeParams_readsAt {type : Rule TypeExpr} (moves : Moves true Any type)
    (reads : ReadsAt TypeAt type) : ReadsAt (IsParams TypeAt) (typeParams type) := by
  intro r ts next h
  obtain ⟨b, mid, haccept, hrest⟩ := bind_eq_ok.1 h
  rcases accept_passed (by decide) haccept with ⟨rfl, less, opening, passedLess⟩ | ⟨rfl, rfl⟩
  · obtain ⟨params, last, hparams, hrest⟩ := bind_eq_ok.1 hrest
    obtain ⟨_, after, hclose, hrest⟩ := bind_eq_ok.1 hrest
    cases hrest
    obtain ⟨ls, passed, derived⟩ := separated_readsAt moves reads mid params last hparams
    obtain ⟨greater, closing, passedGreater⟩ := expect_passed (by decide) hclose
    exact ⟨_, passedLess.cons (passed.trans passedGreater), .present opening derived closing⟩
  · cases hrest
    exact ⟨[], .refl _, .absent⟩

theorem typeAt_inhabited : Inhabited TypeAt := by
  rintro _ _ ⟨rfl, _, name, _, _⟩
  simp [separated_inhabited identifier_inhabited _ _ name]

theorem typeWithin_readsAt (depth : Nat) : ReadsAt TypeAt (typeWithin depth) := by
  induction depth with
  | zero =>
    intro r t next h
    cases h
  | succ depth ih =>
    intro r t next h
    obtain ⟨start, mid, hstart, h⟩ := bind_eq_ok.1 h
    cases hstart
    obtain ⟨set, afterSet, hset, h⟩ := bind_eq_ok.1 h
    obtain ⟨name, afterName, hname, h⟩ := bind_eq_ok.1 h
    obtain ⟨params, afterParams, hparams, h⟩ := bind_eq_ok.1 h
    obtain ⟨b, afterMark, hmark, h⟩ := bind_eq_ok.1 h
    cases h
    obtain ⟨as, passedSet, set, -⟩ := annotations_readsAt hset
    obtain ⟨ns, passedName, terms, isName, rfl⟩ := qualifiedName_readsAt _ _ _ hname
    obtain ⟨ps, passedParams, params⟩ :=
      typeParams_readsAt (Moves.typeWithin depth) ih _ _ _ hparams
    obtain ⟨bs, tookMark, mark⟩ := arrayMark_took hmark
    have passed := passedSet.trans (passedName.trans (passedParams.trans tookMark.passed))
    have type := TypeAt.mk rfl set isName params mark
    have some := typeAt_inhabited _ _ type
    rw [← passed.span some, ← passed.comments some] at type
    exact ⟨_, passed, type⟩

theorem typeExpr_readsAt : ReadsAt TypeAt typeExpr :=
  fun r t next h => typeWithin_readsAt r.rest.length r t next h

theorem literal_readsAt : ReadsAt LiteralAt literal := by
  intro r v next h
  obtain ⟨start, mid, hstart, h⟩ := bind_eq_ok.1 h
  cases hstart
  have token : r.current.token = r.token := rfl
  cases hword : r.token with
  | number text =>
    rw [token, hword] at h
    obtain ⟨l, hl, passed⟩ := take_passed (r := r) (by simp [hword])
    obtain ⟨rfl, passedReport⟩ := reported_passed (Literal.ofNumber _ text) h
    rw [passed.took.current]
    exact ⟨[l], passed.trans passedReport, .number (hl.trans hword)⟩
  | string quoted =>
    rw [token, hword] at h
    obtain ⟨l, hl, passed⟩ := take_passed (r := r) (by simp [hword])
    obtain ⟨rfl, passedReport⟩ := reported_passed (Literal.ofString _ quoted) h
    rw [passed.took.current]
    exact ⟨[l], passed.trans passedReport, .string (hl.trans hword)⟩
  | word | mark | eof =>
    rw [token, hword] at h
    cases h

/-! ## Members -/

theorem defaultValue_readsAt : ReadsAt DefaultAt defaultValue := by
  intro r v next h
  obtain ⟨b, mid, haccept, hrest⟩ := bind_eq_ok.1 h
  rcases accept_passed (by decide) haccept with ⟨rfl, eq, opening, passedEq⟩ | ⟨rfl, rfl⟩
  · obtain ⟨value, last, hvalue, hrest⟩ := bind_eq_ok.1 hrest
    cases hrest
    obtain ⟨ls, passed, literal⟩ := literal_readsAt mid value next hvalue
    exact ⟨eq :: ls, passedEq.cons passed, .present opening literal⟩
  · cases hrest
    exact ⟨[], .refl _, .absent⟩

theorem field_readsAt : ReadsAt FieldAt field := by
  intro r f next h
  obtain ⟨start, mid, hstart, h⟩ := bind_eq_ok.1 h
  cases hstart
  obtain ⟨t, afterType, htype, h⟩ := bind_eq_ok.1 h
  obtain ⟨n, afterName, hname, h⟩ := bind_eq_ok.1 h
  obtain ⟨v, afterDefault, hdefault, h⟩ := bind_eq_ok.1 h
  obtain ⟨_, last, hsemi, h⟩ := bind_eq_ok.1 h
  cases h
  obtain ⟨ts, passedType, type⟩ := typeExpr_readsAt _ _ _ htype
  obtain ⟨ns, passedName, name⟩ := identifier_readsAt _ _ _ hname
  obtain ⟨vs, passedDefault, default⟩ := defaultValue_readsAt _ _ _ hdefault
  obtain ⟨semi, closing, passedSemi⟩ := expect_passed (by decide) hsemi
  have passed := passedType.trans (passedName.trans (passedDefault.trans passedSemi))
  have derived := FieldAt.mk rfl type name default closing
  rw [← passed.span (by simp)] at derived
  exact ⟨_, passed, derived⟩

theorem constant_readsAt : ReadsAt ConstantAt constant := by
  intro r c next h
  obtain ⟨start, mid, hstart, h⟩ := bind_eq_ok.1 h
  cases hstart
  obtain ⟨_, afterWord, hword, h⟩ := bind_eq_ok.1 h
  obtain ⟨t, afterType, htype, h⟩ := bind_eq_ok.1 h
  obtain ⟨n, afterName, hname, h⟩ := bind_eq_ok.1 h
  obtain ⟨_, afterEq, heq, h⟩ := bind_eq_ok.1 h
  obtain ⟨v, afterValue, hvalue, h⟩ := bind_eq_ok.1 h
  obtain ⟨_, last, hsemi, h⟩ := bind_eq_ok.1 h
  cases h
  obtain ⟨word, opening, passedWord⟩ := expect_passed (by decide) hword
  obtain ⟨ts, passedType, type⟩ := typeExpr_readsAt _ _ _ htype
  obtain ⟨ns, passedName, name⟩ := identifier_readsAt _ _ _ hname
  obtain ⟨eq, equals, passedEq⟩ := expect_passed (by decide) heq
  obtain ⟨vs, passedValue, value⟩ := literal_readsAt _ _ _ hvalue
  obtain ⟨semi, closing, passedSemi⟩ := expect_passed (by decide) hsemi
  have passed := passedWord.cons (passedType.trans
    (passedName.trans (passedEq.cons (passedValue.trans passedSemi))))
  have derived := ConstantAt.mk rfl opening type name equals value closing
  rw [← passed.span (by simp)] at derived
  exact ⟨_, passed, derived⟩

theorem argument_readsAt : ReadsAt ArgumentAt argument := by
  intro r a next h
  obtain ⟨start, mid, hstart, h⟩ := bind_eq_ok.1 h
  cases hstart
  obtain ⟨before, afterSet, hset, h⟩ := bind_eq_ok.1 h
  obtain ⟨d, afterDirection, hdirection, h⟩ := bind_eq_ok.1 h
  obtain ⟨t, afterType, htype, h⟩ := bind_eq_ok.1 h
  obtain ⟨n, last, hname, h⟩ := bind_eq_ok.1 h
  cases h
  obtain ⟨as, passedSet, set, all⟩ := annotations_readsAt hset
  obtain ⟨ds, tookDirection, direction⟩ := direction_took hdirection
  obtain ⟨ts, passedType, type⟩ := typeExpr_readsAt _ _ _ htype
  obtain ⟨ns, passedName, name⟩ := identifier_readsAt _ _ _ hname
  have some := typeAt_inhabited _ _ type
  have behind := tookDirection.passed.trans (passedType.trans passedName)
  have passed := passedSet.trans behind
  rw [behind.token (by simp [some])] at all
  have derived := ArgumentAt.mk rfl set all direction type name
  rw [← passed.span (by simp [some])] at derived
  exact ⟨_, passed, derived⟩

theorem argumentList_readsAt : ReadsAt ArgumentListAt argumentList := by
  intro r args next h
  obtain ⟨_, afterLeft, hleft, h⟩ := bind_eq_ok.1 h
  obtain ⟨left, opening, passedLeft⟩ := expect_passed (by decide) hleft
  obtain ⟨seen, mid, hseen, h⟩ := bind_eq_ok.1 h
  cases hseen
  split at h
  · obtain ⟨_, mid, hnone, h⟩ := bind_eq_ok.1 h
    cases hnone
    obtain ⟨_, last, hright, h⟩ := bind_eq_ok.1 h
    cases h
    obtain ⟨right, closing, passedRight⟩ := expect_passed (by decide) hright
    exact ⟨[left, right], passedLeft.trans passedRight, .empty opening closing⟩
  · obtain ⟨all, afterAll, hall, h⟩ := bind_eq_ok.1 h
    obtain ⟨_, last, hright, h⟩ := bind_eq_ok.1 h
    cases h
    obtain ⟨ls, passed, derived⟩ := separated_readsAt Moves.argument argument_readsAt _ _ _ hall
    obtain ⟨right, closing, passedRight⟩ := expect_passed (by decide) hright
    exact ⟨_, passedLeft.cons (passed.trans passedRight), .some opening derived closing⟩

theorem method_readsAt : ReadsAt MethodAt method := by
  intro r m next h
  obtain ⟨start, mid, hstart, h⟩ := bind_eq_ok.1 h
  cases hstart
  obtain ⟨before, afterSet, hset, h⟩ := bind_eq_ok.1 h
  obtain ⟨b, afterOneway, honeway, h⟩ := bind_eq_ok.1 h
  obtain ⟨t, afterType, htype, h⟩ := bind_eq_ok.1 h
  obtain ⟨n, afterName, hname, h⟩ := bind_eq_ok.1 h
  obtain ⟨args, afterArguments, harguments, h⟩ := bind_eq_ok.1 h
  obtain ⟨id, afterId, hid, h⟩ := bind_eq_ok.1 h
  obtain ⟨_, last, hsemi, h⟩ := bind_eq_ok.1 h
  cases h
  obtain ⟨as, passedSet, set, all⟩ := annotations_readsAt hset
  obtain ⟨os, tookOneway, oneway⟩ := oneway_sound honeway
  obtain ⟨ts, passedType, type⟩ := typeExpr_readsAt _ _ _ htype
  obtain ⟨ns, passedName, name⟩ := identifier_readsAt _ _ _ hname
  obtain ⟨gs, passedArguments, arguments⟩ := argumentList_readsAt _ _ _ harguments
  obtain ⟨is, tookId, number⟩ := methodId_took hid
  obtain ⟨semi, closing, passedSemi⟩ := expect_passed (by decide) hsemi
  have behind := tookOneway.passed.trans (passedType.trans (passedName.trans
    (passedArguments.trans (tookId.passed.trans passedSemi))))
  have passed := passedSet.trans behind
  rw [behind.token (by simp)] at all
  have derived := MethodAt.mk rfl set all oneway type name arguments number closing
  rw [← passed.span (by simp), ← passed.comments (by simp)] at derived
  exact ⟨_, passed, derived⟩

theorem member_readsAt : ReadsAt MemberAt member := by
  intro r m next h
  obtain ⟨seen, mid, hseen, h⟩ := bind_eq_ok.1 h
  cases hseen
  split at h
  · obtain ⟨c, last, hconstant, h⟩ := bind_eq_ok.1 h
    cases h
    obtain ⟨ls, passed, derived⟩ := constant_readsAt _ _ _ hconstant
    exact ⟨ls, passed, .constant derived⟩
  · obtain ⟨m, last, hmethod, h⟩ := bind_eq_ok.1 h
    cases h
    obtain ⟨ls, passed, derived⟩ := method_readsAt _ _ _ hmethod
    exact ⟨ls, passed, .method derived⟩

/-! ## Attempts -/

theorem nextToken_append {ls ms ns : List Lexeme} (same : nextToken ms = nextToken ns) :
    nextToken (ls ++ ms) = nextToken (ls ++ ns) := by
  cases ls with
  | nil => exact same
  | cons l ls => rfl

section

variable {α : Type} {D : List Lexeme → α → Prop} {item : Rule α}
  {recover : List Lexeme → List Lexeme}

/-- Only the first token behind the items matters. -/
theorem Attempts.behind {rejects : List Lexeme → Token → Prop} {ls ms ns : List Lexeme}
    {as : List α} (attempts : Attempts D rejects ms ls as) (same : nextToken ms = nextToken ns) :
    Attempts D rejects ns ls as := by
  induction attempts with
  | ended => exact .ended
  | read first _ ih => exact .read first ih
  | rejected broken _ ih => exact .rejected (nextToken_append same ▸ broken) ih

theorem attempt_readsAt (moves : Moves false Any item) (reads : ReadsAt D item)
    (forward : ∀ ls, Onward false ls (recover ls)) {r next : Reading} {o : Option α}
    (h : attempt recover item r = .ok o next) :
    (∃ a ls, o = some a ∧ Passed r ls next ∧ D ls a) ∨
      ∃ ls, o = none ∧ r.rest = ls ++ next.rest ∧ (∀ l ∈ ls, l.token ≠ .eof) ∧
        Rejects item recover ls (nextToken next.rest) := by
  unfold attempt at h
  have moved := moves r trivial
  cases hitem : item r with
  | ok a last =>
    rw [hitem] at h
    cases h
    obtain ⟨ls, passed, derived⟩ := reads r a next hitem
    exact .inl ⟨a, ls, rfl, passed, derived⟩
  | error e mid =>
    rw [hitem] at h moved
    cases h
    cases moved with
    | error onward =>
    obtain ⟨taken, parts, noEnd, -⟩ := onward.trans (forward mid.rest)
    exact .inr ⟨taken, rfl, parts, noEnd, r, e, mid, hitem, parts, rfl⟩

/-- What a loop of attempts passes is read or rejected, item by item. -/
theorem Rounds.attempts {more : Token → Bool} (moves : Moves false Any item) (reads : ReadsAt D item)
    (forward : ∀ ls, Onward false ls (recover ls)) {r last : Reading} {found : List (Option α)}
    (rounds : Rounds more (attempt recover item) r (.ok found last)) :
    ∃ ls, r.rest = ls ++ last.rest ∧ (∀ l ∈ ls, l.token ≠ .eof) ∧
      Attempts D (Rejects item recover) last.rest ls (found.filterMap id) := by
  generalize hresult : EStateM.Result.ok found last = result at rounds
  induction rounds generalizing found with
  | ended stop =>
    cases hresult
    exact ⟨[], rfl, by simp, .ended⟩
  | round go given advance others ih =>
    cases hresult
    obtain ⟨rest, later, inside, attempts⟩ := ih rfl
    rcases attempt_readsAt moves reads forward given with
      ⟨a, ls, rfl, passed, derived⟩ | ⟨ls, rfl, parts, noEnd, broken⟩
    · refine ⟨ls ++ rest, by rw [passed.rest, later, List.append_assoc], ?_, .read derived attempts⟩
      exact List.forall_mem_append.2 ⟨passed.inside, inside⟩
    · rw [later] at broken
      refine ⟨ls ++ rest, by rw [parts, later, List.append_assoc], ?_, .rejected broken attempts⟩
      exact List.forall_mem_append.2 ⟨noEnd, inside⟩
  | broken | roundBroken => cases hresult

end

theorem body_readsAt {α : Type} {D : List Lexeme → α → Prop} {item : Rule α}
    (moves : Moves true Any item) (reads : ReadsAt D item) {r next : Reading} {as : List α}
    (h : body item r = .ok as next) :
    ∃ ls right, Passed r (ls ++ [right]) next ∧ right.token = .mark .closeBrace ∧
      Attempts D (Rejects item afterMember) [right] ls as := by
  obtain ⟨found, mid, hfound, h⟩ := bind_eq_ok.1 h
  obtain ⟨_, last, hright, h⟩ := bind_eq_ok.1 h
  cases h
  have rounds := manyWhile_rounds (Moves.attemptMember (moves.imp fun _ _ => trivial)) r
  have loop : manyWhile inBody (attempt afterMember item) r = .ok found mid := toRule_eq_ok.1 hfound
  rw [loop] at rounds
  obtain ⟨ls, parts, inside, all⟩ :=
    rounds.attempts moves.weaken reads (afterMemberFrom_onward 0)
  obtain ⟨right, closing, passedRight⟩ := expect_passed (by decide) hright
  have front : nextToken mid.rest = nextToken [right] := by rw [passedRight.rest]; rfl
  refine ⟨ls, right, ⟨?_, ?_, ?_⟩, closing, all.behind front⟩
  · rw [parts, passedRight.rest, List.append_assoc]
  · rw [passedRight.previous, lastPlace_append]
    rfl
  · exact List.forall_mem_append.2 ⟨inside, passedRight.inside⟩

/-! ## Declarations and files -/

/-- For a declaration that starts at `first`, whatever stood before the keyword. -/
theorem parcelable_readsAt {first : Lexeme} {package : List String} {r next : Reading}
    {d : Declaration} (h : parcelable first package r = .ok d next) :
    ∃ ls, Passed r ls next ∧ ls ≠ [] ∧ ∀ all, first.location.upTo next.previous = span all →
      first.comments = leadComments all → BodyAt package all ls d := by
  obtain ⟨_, afterWord, hword, h⟩ := bind_eq_ok.1 h
  obtain ⟨word, opening, passedWord⟩ := expect_passed (by decide) hword
  obtain ⟨name, afterName, hname, h⟩ := bind_eq_ok.1 h
  obtain ⟨ns, passedName, terms, isName, rfl⟩ := qualifiedNameWith_readsAt _ _ _ _ hname
  have passedHead := passedWord.cons passedName
  obtain ⟨isPlain, afterSemi, hsemi, hplain⟩ := bind_eq_ok.1 h
  rcases accept_passed (by decide) hsemi with ⟨rfl, semi, closing, passedSemi⟩ | ⟨rfl, rfl⟩
  · cases hplain
    refine ⟨_, passedHead.trans passedSemi, by simp, ?_⟩
    intro all place comments
    rw [place, comments]
    exact .parcelable opening isName closing
  obtain ⟨isHeader, afterMark, hmark, hheader⟩ := bind_eq_ok.1 hplain
  rcases accept_passed (by decide) hmark with ⟨rfl, keyword, mark, passedMark⟩ | ⟨rfl, rfl⟩
  · obtain ⟨seen, _, hseen, hpathRest⟩ := bind_eq_ok.1 hheader
    cases hseen
    cases hpath : afterMark.token with
    | string quoted =>
      rw [hpath] at hpathRest
      obtain ⟨_, afterPath, htake, hpathRest⟩ := bind_eq_ok.1 hpathRest
      cases htake
      obtain ⟨_, last, hlast, hpathRest⟩ := bind_eq_ok.1 hpathRest
      cases hpathRest
      obtain ⟨l, hl, passedPath⟩ := take_passed (r := afterMark) (by simp [hpath])
      obtain ⟨semi, closing, passedSemi⟩ := expect_passed (by decide) hlast
      refine ⟨_, passedHead.trans (passedMark.cons (passedPath.cons passedSemi)), by simp, ?_⟩
      intro all place comments
      rw [place, comments]
      exact .header opening isName mark (hl.trans hpath) closing
    | word | number | mark | eof =>
      rw [hpath] at hpathRest
      cases hpathRest
  obtain ⟨isStructured, afterBrace, hbrace, hstructured⟩ := bind_eq_ok.1 hheader
  rcases accept_passed (by decide) hbrace with ⟨rfl, left, brace, passedBrace⟩ | ⟨rfl, rfl⟩
  · obtain ⟨fields, last, hfields, hstructured⟩ := bind_eq_ok.1 hstructured
    cases hstructured
    obtain ⟨ls, right, passedFields, closing, all⟩ := body_readsAt Moves.field field_readsAt hfields
    refine ⟨_, passedHead.trans (passedBrace.cons passedFields), by simp, ?_⟩
    intro whole place comments
    rw [place, comments]
    exact .structured opening isName brace all closing
  · cases hstructured

theorem interface_readsAt {first : Lexeme} {package : List String} {r next : Reading}
    {d : Declaration} (h : interface first package r = .ok d next) :
    ∃ ls, Passed r ls next ∧ ls ≠ [] ∧ ∀ all, first.location.upTo next.previous = span all →
      first.comments = leadComments all → BodyAt package all ls d := by
  obtain ⟨b, afterOneway, honeway, h⟩ := bind_eq_ok.1 h
  obtain ⟨_, afterWord, hword, h⟩ := bind_eq_ok.1 h
  obtain ⟨n, afterName, hname, h⟩ := bind_eq_ok.1 h
  obtain ⟨_, afterBrace, hbrace, h⟩ := bind_eq_ok.1 h
  obtain ⟨members, last, hmembers, h⟩ := bind_eq_ok.1 h
  cases h
  obtain ⟨os, tookOneway, oneway⟩ := oneway_sound honeway
  obtain ⟨word, opening, passedWord⟩ := expect_passed (by decide) hword
  obtain ⟨ns, passedName, name⟩ := identifier_readsAt _ _ _ hname
  obtain ⟨left, brace, passedBrace⟩ := expect_passed (by decide) hbrace
  obtain ⟨ls, right, passedMembers, closing, all⟩ :=
    body_readsAt Moves.member member_readsAt hmembers
  refine ⟨_, tookOneway.passed.trans (passedWord.cons (passedName.trans
    (passedBrace.cons passedMembers))), by simp, ?_⟩
  intro whole place comments
  rw [place, comments]
  exact .interface oneway opening name brace all closing

theorem declaration_readsAt (package : List String) :
    ReadsAt (DeclarationAt package) (declaration package) := by
  intro r d next h
  obtain ⟨start, mid, hstart, h⟩ := bind_eq_ok.1 h
  cases hstart
  obtain ⟨set, afterSet, hset, h⟩ := bind_eq_ok.1 h
  obtain ⟨seen, mid, hseen, h⟩ := bind_eq_ok.1 h
  cases hseen
  obtain ⟨as, passedSet, annotations, -⟩ := annotations_readsAt hset
  -- both kinds of bodies are found by the same argument from here on
  have finish (declared : Declaration) (last : Reading)
      (hbody : ∃ ls, Passed afterSet ls last ∧ ls ≠ [] ∧
        ∀ all, r.current.location.upTo last.previous = span all →
          r.current.comments = leadComments all → BodyAt package all ls declared) :
      ∃ ls, Passed r ls last ∧ DeclarationAt package ls (declared.annotate set) := by
    obtain ⟨bs, passedBody, nonempty, body⟩ := hbody
    have passed := passedSet.trans passedBody
    have some : as ++ bs ≠ [] := List.append_ne_nil_of_right_ne_nil as nonempty
    exact ⟨_, passed, .mk rfl annotations (body _ (passed.span some) (passed.comments some))⟩
  split at h
  · obtain ⟨declared, last, hbody, h⟩ := bind_eq_ok.1 h
    cases h
    exact finish declared next (parcelable_readsAt hbody)
  · split at h
    · obtain ⟨declared, last, hbody, h⟩ := bind_eq_ok.1 h
      cases h
      exact finish declared next (interface_readsAt hbody)
    · obtain ⟨declared, last, hbody, h⟩ := bind_eq_ok.1 h
      cases hbody

/-- `word name ;`, as packages and imports are read. -/
theorem statement_readsAt {word : String} {r mid afterName next : Reading} {n : QualifiedName}
    {u v : Unit} (hword : expect (.word word) r = .ok u mid)
    (hname : qualifiedName mid = .ok n afterName)
    (hsemi : expect (.mark .semicolon) afterName = .ok v next) :
    ∃ opening ns closing terms, Passed r (opening :: (ns ++ [closing])) next ∧
      opening.token = .word word ∧ IsName ns terms ∧ n = ⟨span ns, terms, leadComments ns⟩ ∧
      closing.token = .mark .semicolon := by
  obtain ⟨opening, hopening, passedWord⟩ := expect_passed (by simp) hword
  obtain ⟨ns, passedName, terms, isName, same⟩ := qualifiedName_readsAt _ _ _ hname
  obtain ⟨closing, hclosing, passedSemi⟩ := expect_passed (by decide) hsemi
  exact ⟨opening, ns, closing, terms, passedWord.cons (passedName.trans passedSemi), hopening,
    isName, same, hclosing⟩

theorem packageStatement_readsAt (behind : List Lexeme) :
    ReadsAt (fun ls n => PackageAt behind ls (some n)) packageStatement := by
  intro r n next h
  obtain ⟨_, afterWord, hword, h⟩ := bind_eq_ok.1 h
  obtain ⟨name, afterName, hname, h⟩ := bind_eq_ok.1 h
  obtain ⟨_, last, hsemi, h⟩ := bind_eq_ok.1 h
  cases h
  obtain ⟨word, ns, semi, terms, passed, opening, isName, rfl, closing⟩ :=
    statement_readsAt hword hname hsemi
  exact ⟨_, passed, .present opening isName closing⟩

theorem item_readsAt (package : List String) : ReadsAt (ItemAt package) (item package) := by
  intro r found next h
  obtain ⟨seen, mid, hseen, h⟩ := bind_eq_ok.1 h
  cases hseen
  split at h
  · obtain ⟨statement, last, himport, h⟩ := bind_eq_ok.1 h
    cases h
    obtain ⟨start, mid, hstart, himport⟩ := bind_eq_ok.1 himport
    cases hstart
    obtain ⟨_, afterWord, hword, himport⟩ := bind_eq_ok.1 himport
    obtain ⟨name, afterName, hname, himport⟩ := bind_eq_ok.1 himport
    obtain ⟨_, last, hsemi, himport⟩ := bind_eq_ok.1 himport
    cases himport
    obtain ⟨word, ns, semi, terms, passed, opening, isName, rfl, closing⟩ :=
      statement_readsAt hword hname hsemi
    have derived : ItemAt package _ _ := .importing rfl opening isName closing
    rw [← passed.span (by simp)] at derived
    exact ⟨_, passed, derived⟩
  · obtain ⟨d, last, hdeclaration, h⟩ := bind_eq_ok.1 h
    cases h
    obtain ⟨ls, passed, derived⟩ := declaration_readsAt package _ _ _ hdeclaration
    exact ⟨ls, passed, .declaring derived⟩

theorem packageClause_readsAt {r next : Reading} {package : Option QualifiedName}
    {behind : List Lexeme} (h : packageClause r = .ok package next)
    (same : nextToken next.rest = nextToken behind) :
    ∃ ls, r.rest = ls ++ next.rest ∧ (∀ l ∈ ls, l.token ≠ .eof) ∧ PackageAt behind ls package := by
  unfold packageClause at h
  split at h
  next opening =>
    rcases attempt_readsAt Moves.packageStatement.weaken (packageStatement_readsAt behind)
      (afterDeclarationFrom_onward 0 false) h with
      ⟨n, ls, rfl, passed, derived⟩ | ⟨ls, rfl, parts, inside, broken⟩
    · exact ⟨ls, passed.rest, passed.inside, derived⟩
    · rw [token_eq_nextToken, parts, nextToken_append same] at opening
      exact ⟨ls, parts, inside, .rejected opening (same ▸ broken)⟩
  next other =>
    cases h
    rw [token_eq_nextToken, same] at other
    exact ⟨[], rfl, by simp, .absent other⟩

theorem sourceFile_readsAt {r next : Reading} {file : SourceFile} (h : sourceFile r = .ok file next) :
    (∃ ls, r.rest = ls ++ next.rest ∧ (∀ l ∈ ls, l.token ≠ .eof) ∧ FileAt ls file) ∧
      next.token = .eof := by
  obtain ⟨package, mid, hpackage, h⟩ := bind_eq_ok.1 h
  obtain ⟨found, last, hfound, h⟩ := bind_eq_ok.1 h
  cases h
  have each := Moves.attemptDeclaration
    (Moves.item (P := (· ≠ .eof)) ((package.map QualifiedName.terms).getD []))
  have rounds := manyWhile_rounds (each.imp fun _ go => of_decide_eq_true go) mid
  rw [hfound] at rounds
  have ended : next.token = .eof := by simpa using rounds.stopped
  obtain ⟨ls, parts, inside, all⟩ := rounds.attempts (Moves.item _).weaken (item_readsAt _)
    (afterDeclarationFrom_onward 0 false)
  have last : nextToken next.rest = nextToken [] := token_eq_nextToken next ▸ ended
  have front : nextToken mid.rest = nextToken ls := by
    rw [parts, nextToken_append last, List.append_nil]
  obtain ⟨ps, opened, before, clause⟩ := packageClause_readsAt hpackage front
  refine ⟨⟨ps ++ ls, ?_, List.forall_mem_append.2 ⟨before, inside⟩, ?_⟩, ended⟩
  · rw [opened, parts, List.append_assoc]
  · exact .mk clause rfl (all.behind last)

end IdlFrontEnd.Grammar
