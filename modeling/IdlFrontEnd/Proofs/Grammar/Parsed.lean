import IdlFrontEnd.Proofs.Declaration
import IdlFrontEnd.Proofs.Grammar.Acceptance
import IdlFrontEnd.Proofs.Grammar.Reports
import IdlFrontEnd.Proofs.Token.Lexeme
import IdlFrontEnd.Build

/-!
# What a parsed file holds

A declaration comes out of the grammar with a name, with values that could be read and without a
canonical name anywhere. Later steps take this for granted: an empty name would never count as
resolved, and an unreadable value would fail its check without a word.
-/
namespace IdlFrontEnd

/-- A declaration as it is before its names are resolved. -/
structure Declaration.Parsed (d : Declaration) : Prop where
  named : d.name ≠ ""
  unfound : ∀ t ∈ d.types, t.Unfound
  valued : ∀ c ∈ d.constants, c.value.value ≠ .invalid

namespace Grammar

theorem many_mem {α : Type} {D : List Lexeme → α → Prop} {ls : List Lexeme} {as : List α}
    (all : Many D ls as) {a : α} (member : a ∈ as) : ∃ ms, ms ⊆ ls ∧ D ms a := by
  induction all with
  | nil => cases member
  | @cons first rest b bs derived _ ih =>
    rcases List.mem_cons.1 member with rfl | member
    · exact ⟨first, List.subset_append_left _ _, derived⟩
    · obtain ⟨ms, inside, derived⟩ := ih member
      exact ⟨ms, List.Subset.trans inside (List.subset_append_right _ _), derived⟩

/-- What is picked out of items that wrap it stands among them in its wrapping. -/
theorem mem_picked {α β : Type} {pick : α → Option β} {wrap : β → α}
    (wraps : ∀ a b, pick a = some b ↔ a = wrap b) {as : List α} {b : β} :
    b ∈ as.filterMap pick ↔ wrap b ∈ as := by
  simp [List.mem_filterMap, wraps]

theorem mem_methods {ms : List Member} {m : Method} :
    m ∈ ms.filterMap Member.method? ↔ .method m ∈ ms :=
  mem_picked (by rintro (_ | _) _ <;> simp [Member.method?])

theorem mem_constants {ms : List Member} {c : Constant} :
    c ∈ ms.filterMap Member.constant? ↔ .constant c ∈ ms :=
  mem_picked (by rintro (_ | _) _ <;> simp [Member.constant?])

theorem mem_statements {items : List Item} {i : ImportStatement} :
    i ∈ items.filterMap Item.statement? ↔ .importing i ∈ items :=
  mem_picked (by rintro (_ | _) _ <;> simp [Item.statement?])

theorem mem_declarations {items : List Item} {d : Declaration} :
    d ∈ items.filterMap Item.declaration? ↔ .declaring d ∈ items :=
  mem_picked (by rintro (_ | _) _ <;> simp [Item.declaration?])

theorem separated_mem {α : Type} {mark : Mark} {D : List Lexeme → α → Prop} {ls : List Lexeme}
    {as : List α} (all : Separated mark D ls as) {a : α} (member : a ∈ as) :
    ∃ ms, ms ⊆ ls ∧ D ms a := by
  obtain ⟨first, others⟩ := all
  rcases List.mem_cons.1 member with rfl | member
  · exact ⟨_, List.subset_append_left _ _, first⟩
  · obtain ⟨_, inside, ⟨_, derived⟩⟩ := many_mem others member
    refine ⟨_, ?_, derived⟩
    intro l there
    exact List.mem_append_right _ (inside (List.mem_cons_of_mem _ there))

/-! ## Types and values -/

/-- Every part of a derived type is derived, from some of its lexemes. -/
theorem type_parts {ls : List Lexeme} {t : TypeExpr} (type : IsType ls t) {p : TypeExpr}
    (member : p ∈ t.parts) : ∃ ms, ms ⊆ ls ∧ IsType ms p := by
  induction hn : ls.length using Nat.strongRecOn generalizing ls t with
  | ind n ih =>
    have whole := type
    obtain ⟨rfl, set, name, params, mark⟩ := type
    rename_i as ns ps bs _ _ _ _
    -- the parameters stand behind a name, so they are shorter
    have nonempty := List.length_pos_iff.2 (separated_inhabited identifier_inhabited _ _ name)
    simp only [List.length_append] at hn
    have within := params_within params (Nat.le_refl ps.length)
    have behind {l : Lexeme} (inside : l ∈ ps) : l ∈ as ++ (ns ++ (ps ++ bs)) := by simp [inside]
    cases within with
    | absent =>
      rw [TypeExpr.parts_bare, List.mem_singleton] at member
      rw [member]
      exact ⟨_, List.Subset.refl _, whole⟩
    | @present _ _ ls _ _ types _ =>
      rw [TypeExpr.parts_params] at member
      rcases List.mem_cons.1 member with rfl | member
      · exact ⟨_, List.Subset.refl _, whole⟩
      · obtain ⟨q, inside, member⟩ := List.mem_flatMap.1 member
        obtain ⟨ms, part, derived, short⟩ := separated_mem types inside
        obtain ⟨ks, inner, own⟩ := ih ms.length (by omega) derived member rfl
        exact ⟨ks, fun l there => behind (by simp [part (inner there)]), own⟩

theorem type_unfound {ls : List Lexeme} {t : TypeExpr} (type : IsType ls t) : t.Unfound := by
  intro p member
  obtain ⟨_, -, own⟩ := type_parts type member
  cases own
  rfl

/-- Other annotations only change the outermost part. -/
theorem mem_parts_annotate {t p : TypeExpr} {set : AnnotationSet}
    (member : p ∈ (t.annotate set).parts) : p = t.annotate set ∨ p ∈ t.parts := by
  obtain ⟨h, ps⟩ := t
  cases ps with
  | none => exact .inl (by simpa [TypeExpr.annotate] using member)
  | some ps =>
    simp only [TypeExpr.annotate, TypeExpr.parts_params, List.mem_cons] at member ⊢
    rcases member with same | member
    · exact .inl same
    · exact .inr (.inr member)

theorem self_mem_parts (t : TypeExpr) : t ∈ t.parts := TypeExpr.mem_parts_iff.2 .self

theorem unfound_withAnnotations {t : TypeExpr} (unfound : t.Unfound) (before : AnnotationSet) :
    (withAnnotations t before).Unfound := by
  intro p member
  rcases mem_parts_annotate member with rfl | member
  · exact unfound t (self_mem_parts t)
  · exact unfound p member

theorem numeral_valued {location : Location} {text : String} {value : Option Int} {v : Literal}
    (h : Literal.numeral location text value = (v, [])) : v.value ≠ .invalid := by
  cases value with
  | none => simp [Literal.numeral] at h
  | some n =>
    simp only [Literal.numeral, Prod.mk.injEq, and_true] at h
    rw [← h]
    simp [Literal.ofInt]

theorem literal_valued {ls : List Lexeme} {v : Literal} (literal : IsLiteral ls v) :
    v.value ≠ .invalid := by
  cases literal with
  | number token value =>
    unfold Literal.ofNumber at value
    split at value
    · exact numeral_valued value
    · exact numeral_valued value
  | string token value =>
    unfold Literal.ofString at value
    split at value
    · simp at value
    · simp only [Prod.mk.injEq, and_true] at value
      rw [← value]
      simp

theorem constant_valued {ls : List Lexeme} {c : Constant} (constant : IsConstant ls c) :
    c.value.value ≠ .invalid := by
  obtain ⟨_, _, _, _, _, value, _⟩ := constant
  exact literal_valued value

theorem method_unfound {ls : List Lexeme} {m : Method} (method : IsMethod ls m) :
    ∀ t ∈ m.types, t.Unfound := by
  obtain ⟨_, _, _, type, _, arguments, _, _⟩ := method
  intro t member
  rcases List.mem_cons.1 member with rfl | member
  · exact unfound_withAnnotations (type_unfound type) _
  · obtain ⟨a, inside, rfl⟩ := List.mem_map.1 member
    cases arguments with
    | empty => cases inside
    | some _ all _ =>
      obtain ⟨_, -, ⟨_, _, _, type, _⟩⟩ := separated_mem all inside
      exact unfound_withAnnotations (type_unfound type) _

/-! ## Names and declarations -/

theorem identifier_named {ls : List Lexeme} {n : String} (name : IsIdentifier ls n)
    (words : ∀ l ∈ ls, l.token ≠ .word "") : n ≠ "" := by
  obtain ⟨word, _⟩ := name
  rintro rfl
  exact words _ List.mem_cons_self word

theorem joinDots_ne_empty {term : String} (terms : List String) (h : term ≠ "") :
    Text.joinDots (term :: terms) ≠ "" := by
  unfold Text.joinDots
  cases terms with
  | nil => rwa [String.intercalate_singleton]
  | cons second terms =>
    rw [String.intercalate_cons_cons]
    simp

theorem name_named {ls : List Lexeme} {terms : List String} (name : IsName ls terms)
    (words : ∀ l ∈ ls, l.token ≠ .word "") : Text.joinDots terms ≠ "" := by
  obtain ⟨first, _⟩ := name
  exact joinDots_ne_empty _
    (identifier_named first fun l member => words l (List.mem_append_left _ member))

theorem body_parsed {package : List String} {all bs : List Lexeme} {d : Declaration}
    (body : IsBody package all bs d) (words : ∀ l ∈ bs, l.token ≠ .word "") : d.Parsed := by
  cases body with
  | parcelable _ name _ =>
    refine ⟨name_named name fun l member => words l (by simp [member]), ?_, ?_⟩
    · intro t member
      cases member
    · intro c member
      cases member
  | header _ name _ _ _ =>
    refine ⟨name_named name fun l member => words l (by simp [member]), ?_, ?_⟩
    · intro t member
      cases member
    · intro c member
      cases member
  | structured _ name _ fields _ =>
    refine ⟨name_named name fun l member => words l (by simp [member]), ?_, ?_⟩
    · intro t member
      obtain ⟨f, inside, rfl⟩ := List.mem_map.1 member
      obtain ⟨_, -, ⟨_, type, _, _, _⟩⟩ := many_mem fields inside
      exact type_unfound type
    · intro c member
      cases member
  | interface _ _ name _ members _ =>
    refine ⟨identifier_named name fun l member => words l (by simp [member]), ?_, ?_⟩
    · intro t member
      rcases List.mem_append.1 member with member | member
      · obtain ⟨m, inside, member⟩ := List.mem_flatMap.1 member
        obtain ⟨written, known, rfl⟩ := List.mem_map.1 inside
        obtain ⟨_, -, derived⟩ := many_mem members (mem_methods.1 known)
        cases derived with
        | method only => exact method_unfound only t member
      · obtain ⟨c, inside, rfl⟩ := List.mem_map.1 member
        obtain ⟨_, -, derived⟩ := many_mem members (mem_constants.1 inside)
        cases derived with
        | constant only =>
          obtain ⟨_, _, type, _, _, _, _⟩ := only
          exact type_unfound type
    · intro c member
      obtain ⟨_, -, derived⟩ := many_mem members (mem_constants.1 member)
      cases derived with
      | constant only => exact constant_valued only

theorem parsed_annotate {d : Declaration} (parsed : d.Parsed) (set : AnnotationSet) :
    (d.annotate set).Parsed := by
  obtain ⟨named, unfound, valued⟩ := parsed
  exact ⟨named, unfound, valued⟩

theorem file_parsed {ls : List Lexeme} {file : SourceFile} (derived : IsFile ls file)
    (words : ∀ l ∈ ls, l.token ≠ .word "") : ∀ d ∈ file.types, d.Parsed := by
  obtain ⟨_, all⟩ := derived
  intro d member
  obtain ⟨ms, within, item⟩ := many_mem all (mem_declarations.1 member)
  cases item with
  | declaring only =>
    obtain ⟨rfl, _, body⟩ := only
    refine parsed_annotate (body_parsed body ?_) _
    intro l member
    exact words l (List.mem_append_right _ (within (List.mem_append_right _ member)))

/-! ## Texts -/

theorem ofText_mistakes (path text : String) : AllMistakes (SourceFile.ofText path text).2 :=
  (Lexeme.ofText_mistakes path text).append (ofLexemes_mistakes _)

/-- What is read from a text in silence is derived from its lexemes. -/
theorem derived_of_silent {path text : String} {ls : List Lexeme} {last : Lexeme}
    (whole : (Lexeme.ofText path text).1 = ls ++ [last]) (closing : last.token = .eof)
    (inside : ∀ l ∈ ls, l.token ≠ .eof) (silent : (SourceFile.ofText path text).2 = []) :
    IsFile ls (SourceFile.ofText path text).1 := by
  have quiet : (SourceFile.ofLexemes (ls ++ [last])).2 = [] := by
    rw [← whole]
    exact (List.append_eq_nil_iff.1 silent).2
  have derived := ofLexemes_sound inside closing quiet
  rwa [← whole] at derived

/-- A text that is read without a report. -/
theorem ofText_parsed {path text : String} (silent : (SourceFile.ofText path text).2 = []) :
    ∀ d ∈ (SourceFile.ofText path text).1.types, d.Parsed := by
  obtain ⟨ls, last, whole, closing, proper⟩ := Lexeme.ofText_closed path text
  have derived := derived_of_silent whole closing (fun l member => (proper l member).1) silent
  exact file_parsed derived fun l member => (proper l member).2

end Grammar

end IdlFrontEnd
