import IdlFrontEnd.Token.Piece

/-!
# What each piece is

Cutting looks at the next characters only. Here every kind of piece is described by its own
characters and by the text after it: a comment that is closed ends at its first end mark, a run of
characters goes on as long as it can, and a stray character is one that opens nothing. The first
piece of every text fits the description of its kind.
-/
namespace IdlFrontEnd

/-- The characters that a token is written with. -/
def Token.written : Token → List Char
  | .word text | .number text | .string text => text.toList
  | .mark m => [m.char]
  | .eof => []

namespace Piece

/-- The characters that end a block comment. -/
def commentEnd : List Char := ['*', '/']

/-- Nothing starts with `c` if `rest` comes after it. -/
structure Unexpected (c : Char) (rest : List Char) : Prop where
  notBlank : Text.isBlank c = false
  notQuote : c ≠ '"'
  notNumber : isNumberStart c rest = false
  notWord : isWordStart c = false
  notMark : ∀ m : Mark, m.char ≠ c
  notComment : c = '/' → rest.head? ≠ some '/' ∧ rest.head? ≠ some '*'

/-- How a token is written if `rest` comes after it: words and numbers are as long as they can be,
and a string ends at the first quote. -/
inductive Spelled : Token → List Char → Prop
  | word {c : Char} {cs rest : List Char} (start : isWordStart c = true)
      (parts : ∀ d ∈ cs, isWordPart d = true) (longest : ∀ d ∈ rest.head?, isWordPart d = false) :
      Spelled (.word (String.ofList (c :: cs))) rest
  | number {c : Char} {cs rest : List Char} (start : isNumberStart c (cs ++ rest) = true)
      (parts : ∀ d ∈ cs, isNumberPart d = true)
      (longest : ∀ d ∈ rest.head?, isNumberPart d = false) :
      Spelled (.number (String.ofList (c :: cs))) rest
  | string {inside rest : List Char} (parts : ∀ d ∈ inside, d ≠ '"' ∧ d ≠ '\n') :
      Spelled (.string (String.ofList ('"' :: inside ++ ['"']))) rest
  | mark (m : Mark) (rest : List Char) : Spelled (.mark m) rest

/-- What a piece of each kind is made of, where `rest` is the text after it. -/
inductive Proper : Piece → List Char → Prop
  | blank {text rest : List Char} (parts : ∀ d ∈ text, Text.isBlank d = true) :
      Proper ⟨.blank, text⟩ rest
  | lineComment {body rest : List Char} (inside : '\n' ∉ body)
      (closed : ∀ d ∈ rest.head?, d = '\n') : Proper ⟨.lineComment, '/' :: '/' :: body⟩ rest
  | blockComment {body rest : List Char} (first : ¬ commentEnd <:+: body ++ ['*']) :
      Proper ⟨.blockComment, '/' :: '*' :: (body ++ commentEnd)⟩ rest
  | openComment {body : List Char} (never : ¬ commentEnd <:+: body) :
      Proper ⟨.openComment, '/' :: '*' :: body⟩ []
  | openString {inside rest : List Char} (parts : ∀ d ∈ inside, d ≠ '"' ∧ d ≠ '\n')
      (cut : ∀ d ∈ rest.head?, d = '\n') : Proper ⟨.openString, '"' :: inside⟩ rest
  | stray {c : Char} {rest : List Char} (unexpected : Unexpected c rest) :
      Proper ⟨.stray c, [c]⟩ rest
  | token {t : Token} {rest : List Char} (spelled : Spelled t rest) :
      Proper ⟨.token t, t.written⟩ rest

theorem Spelled.ne_eof {t : Token} {rest : List Char} (spelled : Spelled t rest) : t ≠ .eof := by
  cases spelled <;> simp

/-- A block comment that is never closed is the last piece. -/
theorem Proper.rest_eq_nil {p : Piece} {rest : List Char} (proper : p.Proper rest)
    (unclosed : p.kind = .openComment) : rest = [] := by
  cases proper
  case openComment => rfl
  all_goals cases unclosed

/-! ## Runs of characters -/

theorem head?_dropWhile {p : Char → Bool} {cs : List Char} :
    ∀ d ∈ (cs.dropWhile p).head?, p d = false := by
  intro d found
  have stopped := List.head?_dropWhile_not p cs
  rw [Option.mem_def.1 found] at stopped
  exact stopped

theorem mem_takeWhile {p : Char → Bool} {cs : List Char} {d : Char} (member : d ∈ cs.takeWhile p) :
    p d = true :=
  List.all_eq_true.1 List.all_takeWhile d member

/-! ## Block comments -/

theorem commentEnd_not_infix_nil : ¬ commentEnd <:+: [] := by
  simp [commentEnd]

/-- An end mark in a text stands at its start or after its first character. -/
theorem commentEnd_infix_cons {c : Char} {cs : List Char} :
    commentEnd <:+: c :: cs ↔ (c = '*' ∧ cs.head? = some '/') ∨ commentEnd <:+: cs := by
  rw [List.infix_cons_iff]
  unfold commentEnd
  cases cs with
  | nil => simp
  | cons d cs => simp [List.cons_prefix_cons, eq_comm]

theorem closeComment?_none {cs : List Char} (h : closeComment? cs = none) :
    ¬ commentEnd <:+: cs := by
  fun_induction closeComment? cs with
  | case1 => exact commentEnd_not_infix_nil
  | case2 => cases h
  | case3 c cs further ih =>
    have rest := ih (Option.map_eq_none_iff.1 h)
    rw [commentEnd_infix_cons]
    rintro (⟨rfl, next⟩ | inside)
    · obtain ⟨ds, rfl⟩ := List.head?_eq_some_iff.1 next
      exact further ds rfl rfl
    · exact rest inside

/-- The comment ends with the first end mark. -/
theorem closeComment?_some {cs inside rest : List Char}
    (h : closeComment? cs = some (inside, rest)) :
    ∃ body, inside = body ++ commentEnd ∧ ¬ commentEnd <:+: body ++ ['*'] := by
  fun_induction closeComment? cs generalizing inside with
  | case1 => cases h
  | case2 =>
    cases h
    exact ⟨[], rfl, by decide⟩
  | case3 c cs further ih =>
    obtain ⟨⟨i, r⟩, hi, he⟩ := Option.map_eq_some_iff.1 h
    cases he
    obtain ⟨body, rfl, first⟩ := ih hi
    refine ⟨c :: body, rfl, ?_⟩
    rw [List.cons_append, commentEnd_infix_cons]
    rintro (⟨rfl, next⟩ | earlier)
    · -- an end mark across the first character would have been taken
      have whole := closeComment?_append hi
      cases body with
      | nil => simp at next
      | cons d body =>
        obtain rfl : d = '/' := by simpa using next
        exact further _ rfl whole.symm
    · exact first earlier

/-! ## The first piece -/

private theorem markFirst_proper {c : Char} {cs : List Char}
    (opens : Mark.ofChar? c = none → Unexpected c cs) :
    (markFirst c cs).1.Proper (markFirst c cs).2 := by
  unfold markFirst
  cases found : Mark.ofChar? c with
  | none => exact .stray (opens found)
  | some m =>
    have same : m.char = c := by simpa using List.find?_some found
    subst same
    exact .token (.mark m cs)

private theorem stringFirst_proper (cs : List Char) :
    (stringFirst cs).1.Proper (stringFirst cs).2 := by
  have parts : ∀ d ∈ cs.takeWhile isStringPart, d ≠ '"' ∧ d ≠ '\n' := by
    intro d member
    simpa [isStringPart] using mem_takeWhile member
  have stopped := @head?_dropWhile isStringPart cs
  unfold stringFirst
  split
  next rest after =>
    have proper := @Proper.token _ rest (Spelled.string parts)
    simpa [Token.written] using proper
  next rest unquoted =>
    refine .openString parts ?_
    intro d first
    have different : d ≠ '"' := by
      rintro rfl
      obtain ⟨ds, after⟩ := List.head?_eq_some_iff.1 first
      exact unquoted ds after
    have ended := stopped d first
    simpa [isStringPart, different] using ended

private theorem run_parts {kind : List Char → PieceKind} {p : Char → Bool} {c : Char}
    {cs : List Char} :
    run kind p c cs = (⟨kind (c :: cs.takeWhile p), c :: cs.takeWhile p⟩, cs.dropWhile p) := rfl

private theorem plainFirst_proper {c : Char} {cs : List Char}
    (notComment : c = '/' → cs.head? ≠ some '/' ∧ cs.head? ≠ some '*') :
    (plainFirst c cs).1.Proper (plainFirst c cs).2 := by
  unfold plainFirst
  split
  next blank =>
    rw [run_parts]
    refine .blank ?_
    intro d member
    rcases List.mem_cons.1 member with rfl | member
    · exact blank
    · exact mem_takeWhile member
  next notBlank =>
    split
    next quote =>
      subst quote
      exact stringFirst_proper cs
    next notQuote =>
      split
      next digit =>
        rw [run_parts]
        have start : isNumberStart c
            (cs.takeWhile isNumberPart ++ cs.dropWhile isNumberPart) = true := by
          rwa [List.takeWhile_append_dropWhile]
        have spelled : Spelled (.number (String.ofList (c :: cs.takeWhile isNumberPart)))
            (cs.dropWhile isNumberPart) :=
          .number start (fun d member => mem_takeWhile member) head?_dropWhile
        simpa [Token.written] using Proper.token spelled
      next notNumber =>
        split
        next letter =>
          rw [run_parts]
          have spelled : Spelled (.word (String.ofList (c :: cs.takeWhile isWordPart)))
              (cs.dropWhile isWordPart) :=
            .word letter (fun d member => mem_takeWhile member) head?_dropWhile
          simpa [Token.written] using Proper.token spelled
        next notWord =>
          refine markFirst_proper fun none => ?_
          constructor
          · simpa using notBlank
          · exact notQuote
          · simpa using notNumber
          · simpa using notWord
          · intro m same
            have absent := List.find?_eq_none.1 none m (by cases m <;> decide)
            simp [same] at absent
          · exact notComment

/-- The first piece of a text is what a piece of its kind must be. -/
theorem first_proper (c : Char) (cs : List Char) : (first c cs).1.Proper (first c cs).2 := by
  unfold first
  split
  next ds =>
    rw [run_parts]
    have body : ('/' :: ds).takeWhile (· ≠ '\n') = '/' :: ds.takeWhile (· ≠ '\n') := by simp
    rw [body]
    refine .lineComment ?_ ?_
    · intro member
      have other := mem_takeWhile member
      simp at other
    · intro d found
      have stopped := head?_dropWhile d found
      simpa using stopped
  next body =>
    cases closing : closeComment? body with
    | none => exact .openComment (closeComment?_none closing)
    | some pair =>
      obtain ⟨inside, rest⟩ := pair
      obtain ⟨body, rfl, earliest⟩ := closeComment?_some closing
      exact .blockComment earliest
  next notLine notBlock =>
    refine plainFirst_proper ?_
    rintro rfl
    constructor
    · intro next
      obtain ⟨ds, rfl⟩ := List.head?_eq_some_iff.1 next
      exact notLine ds rfl rfl
    · intro next
      obtain ⟨ds, rfl⟩ := List.head?_eq_some_iff.1 next
      exact notBlock ds rfl rfl

end Piece

end IdlFrontEnd
