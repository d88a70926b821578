import IdlFrontEnd.Text.Blank
import IdlFrontEnd.Token

/-!
# Pieces of a text

A text is cut from left to right into white space, comments, tokens and stray characters, each as
long as it can be. The pieces put together give back the text. Only a string without a closing
quote on its line ends the cutting early: it is the last piece and what follows it is left out. A
block comment that is never closed takes all of the rest.
-/
namespace IdlFrontEnd

inductive PieceKind where
  | blank | lineComment | blockComment | openComment | openString
  | stray (c : Char) | token (t : Token)
  deriving DecidableEq, Repr

structure Piece where
  kind : PieceKind
  text : List Char
  deriving DecidableEq, Repr

namespace Piece

def isDigit (c : Char) : Bool := '0' ≤ c && c ≤ '9'

def isLetter (c : Char) : Bool := ('a' ≤ c && c ≤ 'z') || ('A' ≤ c && c ≤ 'Z')

def isWordStart (c : Char) : Bool := isLetter c || c = '_'

def isWordPart (c : Char) : Bool := isWordStart c || isDigit c

/-- Letters belong to a number, so a malformed one stays in one piece. -/
def isNumberPart (c : Char) : Bool := isLetter c || isDigit c

def isNumberStart (c : Char) (cs : List Char) : Bool :=
  isDigit c || (c = '-' && cs.head?.any isDigit)

def isStringPart (c : Char) : Bool := c ≠ '"' && c ≠ '\n'

/-- The rest of a block comment up to its end, with what follows it. -/
def closeComment? : List Char → Option (List Char × List Char)
  | [] => none
  | '*' :: '/' :: rest => some (['*', '/'], rest)
  | c :: cs => (closeComment? cs).map fun (inside, rest) => (c :: inside, rest)

/-- The piece made of `c` and the longest run of characters after it that satisfy `p`. -/
def run (kind : List Char → PieceKind) (p : Char → Bool) (c : Char) (cs : List Char) :
    Piece × List Char :=
  let text := c :: cs.takeWhile p
  (⟨kind text, text⟩, cs.dropWhile p)

def stringFirst (cs : List Char) : Piece × List Char :=
  let inside := cs.takeWhile isStringPart
  match cs.dropWhile isStringPart with
  | '"' :: rest =>
    let text := '"' :: inside ++ ['"']
    (⟨.token (.string (String.ofList text)), text⟩, rest)
  | rest => (⟨.openString, '"' :: inside⟩, rest)

def markFirst (c : Char) (cs : List Char) : Piece × List Char :=
  match Mark.ofChar? c with
  | some m => (⟨.token (.mark m), [c]⟩, cs)
  | none => (⟨.stray c, [c]⟩, cs)

def plainFirst (c : Char) (cs : List Char) : Piece × List Char :=
  if Text.isBlank c then run (fun _ => .blank) Text.isBlank c cs
  else if c = '"' then stringFirst cs
  else if isNumberStart c cs then
    run (fun text => .token (.number (String.ofList text))) isNumberPart c cs
  else if isWordStart c then
    run (fun text => .token (.word (String.ofList text))) isWordPart c cs
  else markFirst c cs

/-- The first piece of the text `c :: cs`, with what follows it. -/
def first (c : Char) (cs : List Char) : Piece × List Char :=
  match c, cs with
  | '/', '/' :: _ => run (fun _ => .lineComment) (· ≠ '\n') '/' cs
  | '/', '*' :: body =>
    match closeComment? body with
    | some (inside, rest) => (⟨.blockComment, '/' :: '*' :: inside⟩, rest)
    | none => (⟨.openComment, '/' :: '*' :: body⟩, [])
  | _, _ => plainFirst c cs

theorem closeComment?_append {cs inside rest : List Char}
    (h : closeComment? cs = some (inside, rest)) : inside ++ rest = cs := by
  fun_induction closeComment? cs generalizing inside with
  | case1 => cases h
  | case2 => cases h; rfl
  | case3 c cs _ ih =>
    obtain ⟨⟨i, r⟩, hi, he⟩ := Option.map_eq_some_iff.1 h
    cases he
    simp [ih hi]

private theorem run_append (kind : List Char → PieceKind) (p : Char → Bool) (c : Char)
    (cs : List Char) : (run kind p c cs).1.text ++ (run kind p c cs).2 = c :: cs := by
  simp [run, List.takeWhile_append_dropWhile]

private theorem stringFirst_append (cs : List Char) :
    (stringFirst cs).1.text ++ (stringFirst cs).2 = '"' :: cs := by
  have h := List.takeWhile_append_dropWhile (p := isStringPart) (l := cs)
  unfold stringFirst
  split
  · next rest hr =>
    rw [hr] at h
    simpa using h
  · simp [h]

private theorem plainFirst_append (c : Char) (cs : List Char) :
    (plainFirst c cs).1.text ++ (plainFirst c cs).2 = c :: cs := by
  unfold plainFirst
  split
  · exact run_append _ _ _ _
  · split
    · next h => rw [h]; exact stringFirst_append cs
    · split
      · exact run_append _ _ _ _
      · split
        · exact run_append _ _ _ _
        · unfold markFirst
          split <;> rfl

/-- Nothing is lost between the first piece and the rest. -/
theorem first_append (c : Char) (cs : List Char) :
    (first c cs).1.text ++ (first c cs).2 = c :: cs := by
  unfold first
  split
  · exact run_append _ _ _ _
  · split
    · next h => simp [closeComment?_append h]
    · simp
  · exact plainFirst_append c cs

private theorem plainFirst_text_ne_nil (c : Char) (cs : List Char) :
    (plainFirst c cs).1.text ≠ [] := by
  unfold plainFirst run stringFirst markFirst
  repeat' split
  all_goals simp

theorem first_text_ne_nil (c : Char) (cs : List Char) : (first c cs).1.text ≠ [] := by
  unfold first
  split
  · simp [run]
  · split <;> simp
  · exact plainFirst_text_ne_nil c cs

private theorem plainFirst_token (c : Char) (cs : List Char) {t : Token}
    (h : (plainFirst c cs).1.kind = .token t) : t ≠ .eof ∧ t ≠ .word "" := by
  unfold plainFirst run stringFirst markFirst at h
  repeat' split at h
  all_goals simp at h
  all_goals subst h
  all_goals simp

/-- A text has no end within it, and no word is empty. -/
theorem first_token (c : Char) (cs : List Char) {t : Token}
    (h : (first c cs).1.kind = .token t) : t ≠ .eof ∧ t ≠ .word "" := by
  unfold first at h
  split at h
  · simp [run] at h
  · split at h <;> simp at h
  · exact plainFirst_token c cs h

theorem first_rest_length (c : Char) (cs : List Char) :
    (first c cs).2.length < (c :: cs).length := by
  have happ := congrArg List.length (first_append c cs)
  have hpos := List.length_pos_iff.2 (first_text_ne_nil c cs)
  simp only [List.length_append] at happ
  omega

/-- The pieces of a text, up to and with a string that is not closed. -/
def split : List Char → List Piece
  | [] => []
  | c :: cs =>
    let piece := (first c cs).1
    if piece.kind = .openString then [piece] else piece :: split (first c cs).2
  termination_by cs => cs.length
  decreasing_by exact first_rest_length c cs

theorem split_token {cs : List Char} {p : Piece} {t : Token} (member : p ∈ split cs)
    (h : p.kind = .token t) : t ≠ .eof ∧ t ≠ .word "" := by
  fun_induction split cs with
  | case1 => cases member
  | case2 c cs piece last =>
    rw [List.mem_singleton.1 member] at h
    exact first_token c cs h
  | case3 c cs piece further ih =>
    rcases List.mem_cons.1 member with rfl | member
    · exact first_token c cs h
    · exact ih member

end Piece

end IdlFrontEnd
