import IdlFrontEnd.Proofs.Essence
import IdlFrontEnd.Proofs.Grammar.Spelled
import IdlFrontEnd.Proofs.Text.Numeral
import IdlFrontEnd.Proofs.Token.Line

/-!
# Types and values as shown

A construct is shown with a text. One lemma for each construct says both with which tokens this text
is written and that the grammar derives the construct from these tokens again. Where the tokens
stand and which comments are between them does not matter. A type is shown without the annotations
of its parameters.
-/
namespace IdlFrontEnd.Grammar

open Piece (Apart Line)

/-- The text is written with these tokens, if what follows it does not run into the last one. -/
def Writes (text : String) (ts : List Token) : Prop :=
  ∀ rest us, Apart rest → Line rest us → Line (text.toList ++ rest) (ts ++ us)

/-- From lexemes with these tokens the grammar derives something that looks like `b`. -/
def Derives {α β : Type} (D : List Lexeme → α → Prop) (view : α → β) (ts : List Token) (b : β) :
    Prop :=
  ∀ ls : List Lexeme, ls.map Lexeme.token = ts → ∃ a, D ls a ∧ view a = b

/-- What the text was made from is derived again from its tokens, as far as `view` sees it. -/
def Shows {α β : Type} (D : List Lexeme → α → Prop) (view : α → β) (text : String) (b : β) : Prop :=
  ∃ ts, Writes text ts ∧ Derives D view ts b

/-- The same for a text that ends in a space and so never runs into what follows it. -/
def Leads {α β : Type} (D : List Lexeme → α → Prop) (view : α → β) (text : String) (b : β) : Prop :=
  ∃ ts, (∀ rest us, Line rest us → Line (text.toList ++ rest) (ts ++ us)) ∧ Derives D view ts b

theorem apart_nil : Apart [] := by
  intro d next
  cases next

theorem apart_space (rest : List Char) : Apart (' ' :: rest) := by
  intro d next
  cases next
  decide

theorem apart_mark (m : Mark) (rest : List Char) : Apart (m.char :: rest) := by
  intro d next
  cases next
  cases m <;> decide

/-! ## Names -/

theorem writes_word {text : String} (identifier : Text.isIdentifier text = true) :
    Writes text [.word text] :=
  fun _ _ apart others => .word identifier apart others

theorem identifier_shown {n : String} (word : Text.IsFreeWord n) : Shows IsIdentifier id n n := by
  refine ⟨_, writes_word word.identifier, ?_⟩
  intro ls tokens
  obtain ⟨l, rfl, token⟩ := List.map_eq_singleton_iff.1 tokens
  exact ⟨n, .mk token word.free, rfl⟩

/-- The text that stands between two items is a mark, perhaps with space after it. -/
structure Separates (sep : String) (mark : Mark) : Prop where
  apart : ∀ rest, Apart (sep.toList ++ rest)
  line : ∀ rest us, Line rest us → Line (sep.toList ++ rest) (.mark mark :: us)

theorem separates_dot : Separates "." .dot :=
  ⟨fun rest => apart_mark .dot rest, fun _ _ others => .mark .dot others⟩

theorem separates_comma : Separates "," .comma :=
  ⟨fun rest => apart_mark .comma rest, fun _ _ others => .mark .comma others⟩

theorem separates_comma_space : Separates ", " .comma :=
  ⟨fun rest => apart_mark .comma (' ' :: rest), fun _ _ others => .mark .comma (.space others)⟩

section
variable {α β γ : Type} {D : List Lexeme → α → Prop} {view : α → β} {text : γ → String} {b : γ → β}

theorem separated_shown {sep : String} {mark : Mark} (separates : Separates sep mark)
    {as : List γ} (some : as ≠ []) (each : ∀ a ∈ as, Shows D view (text a) (b a)) :
    Shows (Separated mark D) (List.map view) (String.intercalate sep (as.map text))
      (as.map b) := by
  induction as with
  | nil => exact absurd rfl some
  | cons a as ih =>
    obtain ⟨ts, writes, derives⟩ := each a List.mem_cons_self
    cases as with
    | nil =>
      refine ⟨ts, by simpa using writes, ?_⟩
      intro ls tokens
      obtain ⟨c, derived, same⟩ := derives ls tokens
      refine ⟨[c], ?_, by simp [same]⟩
      simpa using Separated.mk derived .nil
    | cons next as =>
      obtain ⟨us, writesRest, derivesRest⟩ := ih (by simp)
        fun x member => each x (List.mem_cons_of_mem a member)
      refine ⟨ts ++ .mark mark :: us, ?_, ?_⟩
      · intro rest vs apart others
        have tail := separates.line _ _ (writesRest rest vs apart others)
        have whole := writes _ _ (separates.apart _) tail
        simpa [String.intercalate_cons_cons] using whole
      · intro ls tokens
        obtain ⟨own, tail, rfl, first, tokens⟩ := List.map_eq_append_iff.1 tokens
        obtain ⟨comma, others, rfl, separator, tokens⟩ := List.map_eq_cons_iff.1 tokens
        obtain ⟨c, derived, same⟩ := derives own first
        obtain ⟨cs, derivedRest, sameRest⟩ := derivesRest others tokens
        obtain ⟨head, more⟩ := derivedRest
        refine ⟨c :: _ :: _, .mk derived (.cons (.mk separator head) more), ?_⟩
        rw [List.map_cons, same, sameRest]
        rfl

end

theorem name_shown {terms : List String} (some : terms ≠ [])
    (words : ∀ term ∈ terms, Text.IsFreeWord term) :
    Shows IsName (List.map id) (Text.joinDots terms) terms := by
  have all : Shows IsName (List.map id) (String.intercalate "." (terms.map id)) (terms.map id) :=
    separated_shown separates_dot some fun term member => identifier_shown (words term member)
  simpa [Text.joinDots] using all

/-! ## Annotations -/

theorem before_eq_foldr (set : AnnotationSet) (body : String) :
    set.before body = set.toList.foldr (fun a rest => a.text ++ " " ++ rest) body := by
  unfold AnnotationSet.before AnnotationSet.text
  induction set.toList with
  | nil => rfl
  | cons a as ih =>
    cases as with
    | nil => simp
    | cons next as =>
      rw [List.foldr_cons, ← ih]
      simp [String.intercalate_cons_cons, String.append_assoc]

theorem ofList_toList (set : AnnotationSet) : AnnotationSet.ofList set.toList = set := by
  obtain ⟨nullable, utf8, utf8InCpp⟩ := set
  cases nullable <;> cases utf8 <;> cases utf8InCpp <;> rfl

/-- The tokens of annotations that are written in this order. -/
def annotationTokens (as : List Annotation) : List Token :=
  as.flatMap fun a => [.mark .at, .word a.name]

theorem writes_before (set : AnnotationSet) {body : String} {ts : List Token}
    (writes : Writes body ts) : Writes (set.before body) (annotationTokens set.toList ++ ts) := by
  rw [before_eq_foldr]
  generalize set.toList = as
  induction as with
  | nil => exact writes
  | cons a as ih =>
    intro rest us apart others
    have word : Text.isIdentifier a.name = true := by cases a <;> decide
    have tail := Line.word word (apart_space _) (.space (ih rest us apart others))
    have sign := Line.mark .at tail
    simpa [annotationTokens, Annotation.text, Mark.char] using sign

theorem annotations_derived (set : AnnotationSet) :
    ∀ ls : List Lexeme, ls.map Lexeme.token = annotationTokens set.toList → IsAnnotations ls set := by
  have all : ∀ (as : List Annotation) (ls : List Lexeme),
      ls.map Lexeme.token = annotationTokens as → Many IsAnnotation ls as := by
    intro as
    induction as with
    | nil =>
      intro ls tokens
      rw [List.map_eq_nil_iff.1 tokens]
      exact .nil
    | cons a as ih =>
      intro ls tokens
      obtain ⟨sign, tail, rfl, opening, tokens⟩ := List.map_eq_cons_iff.1 tokens
      obtain ⟨l, others, rfl, word, tokens⟩ := List.map_eq_cons_iff.1 tokens
      exact .cons (.mk opening word) (ih others tokens)
  intro ls tokens
  rw [← ofList_toList set]
  exact .mk (all _ ls tokens)

/-! ## Types -/

theorem arrayMark_shown (h : TypeHead) : Shows IsArrayMark id h.arrayMark h.isArray := by
  unfold TypeHead.arrayMark
  cases h.isArray with
  | false =>
    refine ⟨[], fun rest us _ others => others, ?_⟩
    intro ls tokens
    rw [List.map_eq_nil_iff.1 tokens]
    exact ⟨false, .absent, rfl⟩
  | true =>
    refine ⟨[.mark .openBracket, .mark .closeBracket], ?_, ?_⟩
    · exact fun rest us _ others => .mark .openBracket (.mark .closeBracket others)
    · intro ls tokens
      obtain ⟨left, tail, rfl, opening, tokens⟩ := List.map_eq_cons_iff.1 tokens
      obtain ⟨right, rfl, closing⟩ := List.map_eq_singleton_iff.1 tokens
      exact ⟨true, .present opening closing, rfl⟩

theorem apart_arrayMark (h : TypeHead) {rest : List Char} (apart : Apart rest) :
    Apart (h.arrayMark.toList ++ rest) := by
  unfold TypeHead.arrayMark
  cases h.isArray with
  | false => exact apart
  | true => exact apart_mark .openBracket _

/-- The parameters of a type as it shows them. -/
def paramsText : Option (List TypeExpr) → String
  | none => ""
  | some ps => "<" ++ String.intercalate "," (ps.map TypeExpr.text) ++ ">"

theorem typeText_eq (h : TypeHead) (ps : Option (List TypeExpr)) :
    TypeExpr.text ⟨h, ps⟩ = h.name ++ paramsText ps ++ h.arrayMark := by
  cases ps with
  | none => rw [TypeExpr.text, paramsText, String.append_empty]
  | some ps =>
    rw [TypeExpr.text, TypeExpr.texts_eq_map, paramsText]
    simp [String.append_assoc]

theorem apart_params (ps : Option (List TypeExpr)) {rest : List Char} (apart : Apart rest) :
    Apart ((paramsText ps).toList ++ rest) := by
  cases ps with
  | none => exact apart
  | some ps =>
    rw [paramsText, String.append_assoc, String.toList_append, List.append_assoc]
    exact apart_mark .less _

theorem params_shown {ps : Option (List TypeExpr)} (nonempty : ps ≠ some [])
    (each : ∀ qs ∈ ps, ∀ p ∈ qs, Shows IsType TypeExpr.tree p.text p.tree) :
    Shows (IsParams IsType) (Option.map (List.map TypeExpr.tree)) (paramsText ps)
      (ps.map (List.map TypeExpr.tree)) := by
  cases ps with
  | none =>
    refine ⟨[], fun rest us _ others => others, ?_⟩
    intro ls tokens
    rw [List.map_eq_nil_iff.1 tokens]
    exact ⟨none, .absent, rfl⟩
  | some qs =>
    obtain ⟨ts, writes, derives⟩ := separated_shown separates_comma (by simpa using nonempty) (each qs rfl)
    refine ⟨.mark .less :: (ts ++ [.mark .greater]), ?_, ?_⟩
    · intro rest us apart others
      have closing := writes _ _ (apart_mark .greater rest) (.mark .greater others)
      have whole := Line.mark .less closing
      simpa [paramsText, Mark.char] using whole
    · intro ls tokens
      obtain ⟨less, tail, rfl, opening, tokens⟩ := List.map_eq_cons_iff.1 tokens
      obtain ⟨inside, last, rfl, first, ended⟩ := List.map_eq_append_iff.1 tokens
      obtain ⟨greater, rfl, closing⟩ := List.map_eq_singleton_iff.1 ended
      obtain ⟨found, derived, same⟩ := derives inside first
      exact ⟨some found, .present opening derived closing, congrArg Option.some same⟩

/-- A type with annotations in front of it is shown as its parameters are without theirs. -/
theorem annotated_shown_of_params {h : TypeHead} {ps : Option (List TypeExpr)}
    (spelled : TypeExpr.SpelledPart ⟨h, ps⟩)
    (inner : ∀ qs ∈ ps, ∀ p ∈ qs, Shows IsType TypeExpr.tree p.text p.tree)
    (set : AnnotationSet) :
    Shows IsType TypeExpr.essence (set.before (TypeExpr.text ⟨h, ps⟩))
      ((TypeExpr.tree ⟨h, ps⟩).annotate set) := by
  obtain ⟨qualified, unfound, unattached, nonempty⟩ := spelled
  obtain ⟨ns, writesName, derivesName⟩ := name_shown (Text.dotted_ne_nil h.written) qualified
  obtain ⟨qs, writesParams, derivesParams⟩ := params_shown nonempty inner
  obtain ⟨bs, writesMark, derivesMark⟩ := arrayMark_shown h
  rw [Text.joinDots_dotted] at writesName
  refine ⟨annotationTokens set.toList ++ (ns ++ (qs ++ bs)), writes_before set ?_, ?_⟩
  · intro rest us apart others
    have mark := writesMark rest us apart others
    have params := writesParams _ _ (apart_arrayMark h apart) mark
    have whole := writesName _ _ (apart_params ps (apart_arrayMark h apart)) params
    have name : h.name = h.written := by
      unfold TypeHead.name
      rw [show h.canonical = none from unfound, Option.getD_none]
    simpa [typeText_eq, name] using whole
  · intro ls tokens
    obtain ⟨as, tail, rfl, first, tokens⟩ := List.map_eq_append_iff.1 tokens
    obtain ⟨names, tail, rfl, second, tokens⟩ := List.map_eq_append_iff.1 tokens
    obtain ⟨params, marks, rfl, third, fourth⟩ := List.map_eq_append_iff.1 tokens
    obtain ⟨terms, name, sameTerms⟩ := derivesName names second
    obtain ⟨found, list, sameParams⟩ := derivesParams params third
    obtain ⟨b, mark, sameMark⟩ := derivesMark marks fourth
    refine ⟨_, .mk rfl (annotations_derived set as first) name list mark, ?_⟩
    have written : Text.joinDots terms = h.written := by
      rw [← Text.joinDots_dotted h.written, ← sameTerms, List.map_id]
    have plain (location : Location) (comments : String) :
        (TypeHead.fresh location (Text.joinDots terms) b comments set).plain = h.plain := by
      simp [TypeHead.fresh, TypeHead.plain, written, show b = h.isArray from sameMark,
        show h.canonical = none from unfound, show h.attachment = none from unattached]
    rw [TypeExpr.essence, TypeExpr.tree_eq, TypeExpr.tree_eq, plain, sameParams]
    rfl

theorem tree_of_essence {t : TypeExpr} {u : TypeExpr} {set : AnnotationSet}
    (same : t.essence = u.tree.annotate set) : t.tree = u.tree := by
  rw [← TypeExpr.tree_essence t, same, TypeExpr.tree_annotate, TypeExpr.tree_tree]

/-- What is seen of more is seen of less. -/
theorem Shows.tree {text : String} {u : TypeExpr} {set : AnnotationSet}
    (shown : Shows IsType TypeExpr.essence text (u.tree.annotate set)) :
    Shows IsType TypeExpr.tree text u.tree := by
  obtain ⟨ts, writes, derives⟩ := shown
  refine ⟨ts, writes, ?_⟩
  intro ls tokens
  obtain ⟨t, derived, same⟩ := derives ls tokens
  exact ⟨t, derived, tree_of_essence same⟩

/-- A type is read back with the annotations in front of it, and its parameters without theirs. -/
theorem annotated_shown {t : TypeExpr} (spelled : t.Spelled) (set : AnnotationSet) :
    Shows IsType TypeExpr.essence (set.before t.text) (t.tree.annotate set) := by
  induction t using TypeExpr.induction generalizing set with
  | bare h => exact annotated_shown_of_params (spelled _ (self_mem_parts _)) (by simp) set
  | params h ps ih =>
    refine annotated_shown_of_params (spelled _ (self_mem_parts _)) ?_ set
    intro qs same p member
    cases same
    refine (ih p member (fun q inside => spelled q ?_) .empty).tree
    rw [TypeExpr.parts_params]
    exact List.mem_cons_of_mem _ (List.mem_flatMap.2 ⟨p, member, inside⟩)

theorem type_shown {t : TypeExpr} (spelled : t.Spelled) :
    Shows IsType TypeExpr.essence t.signature t.essence :=
  annotated_shown spelled t.head.annotations

theorem tree_shown {t : TypeExpr} (spelled : t.Spelled) :
    Shows IsType TypeExpr.tree t.text t.tree :=
  (annotated_shown spelled .empty).tree

/-! ## Values -/

theorem writes_number (n : Int) : Writes (toString n) [.number (toString n)] := by
  intro rest us apart others
  obtain ⟨c, ds, shown, digits, first⟩ := Text.toString_digits n
  have isDigit {d : Char} (digit : d.isDigit = true) : Piece.isDigit d = true := by
    simpa [Piece.isDigit, Char.isDigit, Char.le_def] using digit
  have start : Piece.isNumberStart c ds = true := by
    unfold Piece.isNumberStart
    rcases first with digit | ⟨rfl, some⟩
    · rw [isDigit digit, Bool.true_or]
    · obtain ⟨d, others, rfl⟩ := List.exists_cons_of_ne_nil some
      simp [isDigit (digits d List.mem_cons_self)]
  have parts : ∀ d ∈ ds, Piece.isNumberPart d = true := by
    intro d member
    rw [Piece.isNumberPart, isDigit (digits d member), Bool.or_true]
  have whole := Line.number start parts apart others
  rw [← shown, String.ofList_toList] at whole
  rwa [shown]

theorem literal_shown {v : LiteralValue} (spelled : v.Spelled) :
    Shows IsLiteral Literal.essence v.text ⟨.nowhere, v⟩ := by
  cases spelled with
  | @int n low high =>
    refine ⟨[.number (toString n)], writes_number n, ?_⟩
    · intro ls tokens
      obtain ⟨l, rfl, token⟩ := List.map_eq_singleton_iff.1 tokens
      exact ⟨_, .number token (Literal.ofNumber_toString low high l.location), rfl⟩
  | @string inside parts =>
    refine ⟨[.string (String.ofList ('"' :: inside ++ ['"']))], ?_, ?_⟩
    · intro rest us apart others
      have plain : ∀ d ∈ inside, d ≠ '"' ∧ d ≠ '\n' := by
        intro d member
        obtain ⟨unquoted, plain⟩ := parts d member
        refine ⟨unquoted, ?_⟩
        rintro rfl
        revert plain
        decide
      have whole := Line.string plain others
      simpa [LiteralValue.text] using whole
    · intro ls tokens
      obtain ⟨l, rfl, token⟩ := List.map_eq_singleton_iff.1 tokens
      refine ⟨⟨l.location, _⟩, .string token ?_, rfl⟩
      have none : ('"' :: inside ++ ['"']).findIdx? (!Literal.isPlain ·) = none := by
        rw [List.findIdx?_eq_none_iff]
        intro d member
        have quote : Literal.isPlain '"' = true := by decide
        simp only [List.cons_append, List.mem_cons, List.mem_append, List.not_mem_nil,
          or_false] at member
        rcases member with rfl | member | rfl
        · simp [quote]
        · simp [(parts d member).2]
        · simp [quote]
      rw [Literal.ofString, String.toList_ofList, none]

end IdlFrontEnd.Grammar
