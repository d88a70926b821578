import IdlFrontEnd.Proofs.Token.Lexeme
import IdlFrontEnd.Proofs.Token.Piece

/-!
# How the tokens of a text are written

A word of a text is an identifier, a number has a digit behind its sign, and a string has a quote at
each end and none inside. So what is read from a text can only have names of this form, and it can be
written back.
-/
namespace IdlFrontEnd

/-- `[A-Za-z_][A-Za-z0-9_]*` -/
def Text.isIdentifier (text : String) : Bool :=
  match text.toList with
  | [] => false
  | c :: cs => Piece.isWordStart c && cs.all Piece.isWordPart

theorem Text.isWordPart_of_isIdentifier {word : String} (identifier : isIdentifier word = true)
    {c : Char} (member : c ∈ word.toList) : Piece.isWordPart c = true := by
  unfold isIdentifier at identifier
  split at identifier
  next none => simp [none] at member
  next first others parts =>
    simp only [Bool.and_eq_true, List.all_eq_true] at identifier
    rw [parts] at member
    rcases List.mem_cons.1 member with rfl | later
    · simp [Piece.isWordPart, identifier.1]
    · exact identifier.2 c later

/-- The token is written as a token of a text is. A number is `-?[0-9][A-Za-z0-9]*`. -/
inductive Token.Written : Token → Prop
  | word {text : String} (identifier : Text.isIdentifier text = true) : Written (.word text)
  | number {sign parts : List Char} {d : Char} (signed : sign = [] ∨ sign = ['-'])
      (digit : Piece.isDigit d = true) (each : ∀ c ∈ parts, Piece.isNumberPart c = true) :
      Written (.number (String.ofList (sign ++ d :: parts)))
  | string {inside : List Char} (parts : ∀ d ∈ inside, d ≠ '"' ∧ d ≠ '\n') :
      Written (.string (String.ofList ('"' :: inside ++ ['"'])))
  | mark (m : Mark) : Written (.mark m)

theorem Token.Written.ne_eof {t : Token} (written : t.Written) : t ≠ .eof := by
  cases written <;> simp

theorem Piece.Spelled.written {t : Token} {rest : List Char} (spelled : Piece.Spelled t rest) :
    t.Written := by
  cases spelled with
  | word start parts _ => exact .word (by simpa [Text.isIdentifier, start] using parts)
  | @number c cs _ start parts longest =>
    by_cases digit : Piece.isDigit c = true
    · exact .number (.inl rfl) digit parts
    · -- the digit behind a sign belongs to the number, since a number is as long as it can be
      obtain ⟨rfl, signed⟩ : c = '-' ∧ (cs ++ rest).head?.any Piece.isDigit = true := by
        simpa [Piece.isNumberStart, digit] using start
      cases cs with
      | nil =>
        obtain ⟨d, first, digit⟩ := (Option.any_eq_true _ _).1 signed
        have apart := longest d first
        rw [Piece.isNumberPart, digit, Bool.or_true] at apart
        cases apart
      | cons d cs =>
        obtain ⟨-, others⟩ := List.forall_mem_cons.1 parts
        exact .number (.inr rfl) signed others
  | string parts => exact .string parts
  | mark => exact .mark _

namespace Piece

theorem first_written {c : Char} {cs : List Char} {t : Token}
    (h : (first c cs).1.kind = .token t) : t.Written := by
  have proper := first_proper c cs
  generalize first c cs = found at h proper
  obtain ⟨piece, rest⟩ := found
  cases proper with
  | token spelled =>
    cases h
    exact spelled.written
  | _ => cases h

theorem split_written {cs : List Char} {p : Piece} {t : Token} (member : p ∈ split cs)
    (h : p.kind = .token t) : t.Written := by
  fun_induction split cs with
  | case1 => cases member
  | case2 c cs piece last =>
    rw [List.mem_singleton.1 member] at h
    exact first_written h
  | case3 c cs piece further ih =>
    rcases List.mem_cons.1 member with rfl | member
    · exact first_written h
    · exact ih member

end Piece

theorem Lexeme.ofText_written (file text : String) :
    ∃ ls last, (ofText file text).1 = ls ++ [last] ∧ last.token = .eof ∧
      ∀ l ∈ ls, l.token.Written :=
  place_closed file _ (fun _ member _ kind => Piece.split_written member kind) _ _

end IdlFrontEnd
