import IdlFrontEnd.Proofs.Diagnostic
import IdlFrontEnd.Token.Lexeme

/-!
# What scanning gives

The lexemes of a text are closed by the end of the file, which stands nowhere else, and no word
among them is empty. Scanning reports mistakes in the text only. It is silent exactly if nothing but
tokens is left of the text without white space and comments.
-/
namespace IdlFrontEnd

/-- Neither white space nor a comment. -/
def PieceKind.isVisible : PieceKind → Bool
  | .blank | .lineComment | .blockComment => false
  | .openComment | .openString | .stray _ | .token _ => true

/-- What is left of a text without white space and comments. -/
def Piece.visible (text : String) : List PieceKind :=
  ((split text.toList).map kind).filter PieceKind.isVisible

namespace Lexeme

/-- Laying out pieces keeps what is true of their tokens. -/
theorem place_closed {P : Token → Prop} (file : String) (pieces : List Piece)
    (proper : ∀ p ∈ pieces, ∀ t, p.kind = .token t → P t) (point : Point) (comments : String) :
    ∃ ls last, (place file point comments pieces).1 = ls ++ [last] ∧ last.token = .eof ∧
      ∀ l ∈ ls, P l.token := by
  induction pieces generalizing point comments with
  | nil => exact ⟨[], eof file point, rfl, rfl, by simp⟩
  | cons piece pieces ih =>
    have others := ih fun p member => proper p (List.mem_cons_of_mem piece member)
    have own := proper piece List.mem_cons_self
    unfold place
    dsimp only
    split
    · exact others _ _
    · exact others _ _
    · exact others _ _
    · exact ⟨[], _, rfl, rfl, by simp⟩
    · exact ⟨[], _, rfl, rfl, by simp⟩
    · exact others _ _
    next t kind =>
      obtain ⟨ls, last, whole, closing, inside⟩ := others (point.afterAll piece.text) ""
      refine ⟨_ :: ls, last, congrArg (List.cons _) whole, closing, ?_⟩
      intro l member
      rcases List.mem_cons.1 member with rfl | member
      · exact own t kind
      · exact inside l member

theorem place_mistakes (file : String) (pieces : List Piece) (point : Point) (comments : String) :
    AllMistakes (place file point comments pieces).2 := by
  induction pieces generalizing point comments with
  | nil => exact .nil
  | cons piece pieces ih =>
    unfold place
    dsimp only
    split
    · exact ih _ _
    · exact ih _ _
    · exact ih _ _
    · exact .single rfl rfl
    · exact .single rfl rfl
    · exact List.forall_mem_cons.2 ⟨⟨rfl, rfl⟩, ih _ _⟩
    · exact ih _ _

theorem ofText_closed (file text : String) :
    ∃ ls last, (ofText file text).1 = ls ++ [last] ∧ last.token = .eof ∧
      ∀ l ∈ ls, l.token ≠ .eof ∧ l.token ≠ .word "" :=
  place_closed file _ (fun _ member _ kind => Piece.split_token member kind) _ _

theorem ofText_mistakes (file text : String) : AllMistakes (ofText file text).2 :=
  place_mistakes file _ _ _

/-- Laying out pieces is silent if all that are visible are tokens, and then gives these. -/
theorem place_silent_iff (file : String) (pieces : List Piece) (ts : List Token) (point : Point)
    (comments : String) :
    (place file point comments pieces).2 = [] ∧
        (place file point comments pieces).1.map token = ts ++ [.eof] ↔
      (pieces.map Piece.kind).filter PieceKind.isVisible = ts.map PieceKind.token := by
  induction pieces generalizing ts point comments with
  | nil => cases ts <;> simp [place, eof]
  | cons piece pieces ih =>
    rw [List.map_cons]
    unfold place
    cases piece.kind with
    | blank => exact ih ts _ _
    | lineComment => exact ih ts _ _
    | blockComment => exact ih ts _ _
    | openComment | openString | stray c =>
      rw [List.filter_cons_of_pos rfl]
      cases ts <;> simp
    | token t =>
      rw [List.filter_cons_of_pos rfl]
      cases ts with
      | nil =>
        obtain ⟨ls, last, whole, -⟩ := place_closed (P := fun _ => True) file pieces
          (fun _ _ _ _ => trivial) (point.afterAll piece.text) ""
        simp [whole]
      | cons u us =>
        have others := ih us (point.afterAll piece.text) ""
        simp only [List.map_cons, List.cons_append, List.cons.injEq, PieceKind.token.injEq,
          ← others]
        exact and_left_comm

theorem ofText_silent_iff (file text : String) (ts : List Token) :
    (ofText file text).2 = [] ∧ (ofText file text).1.map token = ts ++ [.eof] ↔
      Piece.visible text = ts.map PieceKind.token :=
  place_silent_iff file _ ts _ _

/-- A text of which only tokens are visible is read as these tokens, without a report. -/
theorem ofText_of_visible {text : String} {ts : List Token}
    (visible : Piece.visible text = ts.map PieceKind.token) (file : String) :
    ∃ ls last, ofText file text = (ls ++ [last], []) ∧ ls.map token = ts ∧ last.token = .eof := by
  obtain ⟨silent, tokens⟩ := (ofText_silent_iff file text ts).2 visible
  obtain ⟨ls, tail, whole, own, rest⟩ := List.map_eq_append_iff.1 tokens
  obtain ⟨last, rfl, closing⟩ := List.map_eq_singleton_iff.1 rest
  exact ⟨ls, last, Prod.ext whole silent, own, closing⟩

/-- What a text is read as without a report is all that is visible of it. -/
theorem visible_of_silent {file text : String} {ls : List Lexeme} {last : Lexeme}
    (read : ofText file text = (ls ++ [last], [])) (closing : last.token = .eof) :
    Piece.visible text = ls.map fun l => .token l.token := by
  have visible := (ofText_silent_iff file text (ls.map token)).1 (by simp [read, closing])
  rwa [List.map_map] at visible

end Lexeme

end IdlFrontEnd
