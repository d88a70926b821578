import IdlFrontEnd.Proofs.Location
import IdlFrontEnd.Proofs.Token.Line

/-!
# Tokens between separators

Tokens are written one after the other with separators between them: white space, line comments up
to their line feed and block comments up to their first end mark. Whatever the separators hold, the
text is scanned as these tokens again, without a report, and each of them carries the comments of
the separator before it. Only between tokens a separator must not be empty; what stands before the
end of the file is left out.
-/
namespace IdlFrontEnd

/-- What a separator is made of. A line comment includes its line feed, and a block comment is closed
behind its body for the first time. -/
inductive Filler where
  | blank (c : Char) (white : Text.isBlank c = true)
  | lineComment (body : List Char) (inside : '\n' ∉ body)
  | blockComment (body : List Char) (first : ¬ Piece.commentEnd <:+: body)

namespace Filler

def written : Filler → List Char
  | .blank c _ => [c]
  | .lineComment body _ => '/' :: '/' :: body ++ ['\n']
  | .blockComment body _ => '/' :: '*' :: body ++ Piece.commentEnd

/-- A comment with its marks; white space is none. -/
def comment : Filler → String
  | .blank .. => ""
  | f => String.ofList f.written

end Filler

abbrev Separator := List Filler

namespace Separator

def written (s : Separator) : List Char := s.flatMap Filler.written

def comments (s : Separator) : String := String.join (s.map Filler.comment)

@[simp] theorem written_nil : written [] = [] := rfl

@[simp] theorem written_cons (f : Filler) (s : Separator) :
    written (f :: s) = f.written ++ written s := rfl

@[simp] theorem comments_nil : comments [] = "" := rfl

@[simp] theorem comments_cons (f : Filler) (s : Separator) :
    comments (f :: s) = f.comment ++ comments s := by
  simp [comments]

end Separator

namespace Piece

theorem split_cons {c : Char} {cs text rest : List Char} {kind : PieceKind}
    (head : first c cs = (⟨kind, text⟩, rest)) (closed : kind ≠ .openString) :
    split (c :: cs) = ⟨kind, text⟩ :: split rest := by
  rw [split, head, if_neg closed]

theorem first_lineComment {body : List Char} (inside : '\n' ∉ body) (rest : List Char) :
    first '/' ('/' :: (body ++ '\n' :: rest)) =
      (⟨.lineComment, '/' :: '/' :: body⟩, '\n' :: rest) := by
  have parts : ∀ d ∈ '/' :: body, (d ≠ '\n' : Bool) = true := by
    intro d member
    rw [decide_eq_true_eq]
    rintro rfl
    rcases List.mem_cons.1 member with slash | member
    · exact absurd slash (by decide)
    · exact inside member
  have closed : ∀ d ∈ ('\n' :: rest).head?, (d ≠ '\n' : Bool) = false := by simp
  exact @run_eq (fun _ => .lineComment) (· ≠ '\n') '/' ('/' :: body) ('\n' :: rest) parts closed

theorem closeComment?_first {body : List Char} (first : ¬ commentEnd <:+: body)
    (rest : List Char) :
    closeComment? (body ++ '*' :: '/' :: rest) = some (body ++ commentEnd, rest) := by
  induction body with
  | nil => rfl
  | cons c body ih =>
    rw [commentEnd_infix_cons, not_or] at first
    rw [List.cons_append, closeComment?, ih first.2]
    · rfl
    · -- the end mark may not start at `c`, not even with the star of the end mark behind it
      rintro others rfl next
      cases body with
      | nil => cases next
      | cons d body =>
        obtain ⟨rfl, -⟩ := List.cons.inj next
        exact first.1 ⟨rfl, rfl⟩

theorem first_blockComment {body : List Char} (earliest : ¬ commentEnd <:+: body)
    (rest : List Char) :
    first '/' ('*' :: (body ++ '*' :: '/' :: rest)) =
      (⟨.blockComment, '/' :: '*' :: (body ++ commentEnd)⟩, rest) := by
  simp only [first, closeComment?_first earliest]

/-- A token in front of a text that does not carry it on is cut off. -/
theorem first_of_written {t : Token} (written : t.Written) {rest : List Char}
    (apart : Apart rest) :
    ∃ c cs, t.written ++ rest = c :: cs ∧ first c cs = (⟨.token t, t.written⟩, rest) := by
  cases written with
  | @word text identifier =>
    unfold Text.isIdentifier at identifier
    split at identifier
    · cases identifier
    next c cs some =>
      simp only [Bool.and_eq_true, List.all_eq_true] at identifier
      have head := first_word identifier.1 identifier.2 apart
      rw [← some, String.ofList_toList] at head
      exact ⟨c, cs ++ rest, by simp [Token.written, some], head⟩
  | @number sign parts d signed digit each =>
    rcases signed with rfl | rfl
    · have start : isNumberStart d (parts ++ rest) = true := by simp [isNumberStart, digit]
      have head := first_number start each apart
      exact ⟨d, parts ++ rest, by simp [Token.written], by simpa [Token.written] using head⟩
    · have start : isNumberStart '-' (d :: parts ++ rest) = true := by
        simp [isNumberStart, digit]
      have whole : ∀ c ∈ d :: parts, isNumberPart c = true := by
        intro c member
        rcases List.mem_cons.1 member with rfl | member
        · simp [isNumberPart, digit]
        · exact each c member
      have head := first_number start whole apart
      exact ⟨'-', d :: parts ++ rest, by simp [Token.written], by simpa [Token.written] using head⟩
  | @string inside parts =>
    exact ⟨'"', inside ++ '"' :: rest, by simp [Token.written],
      by simpa [Token.written] using first_string parts⟩
  | mark m => exact ⟨m.char, rest, rfl, first_mark m rest⟩

/-- A separator carries on no token. -/
theorem apart_written {s : Separator} (some : s ≠ []) (rest : List Char) :
    Apart (s.written ++ rest) := by
  obtain ⟨f, fs, rfl⟩ := List.exists_cons_of_ne_nil some
  intro d first
  cases f with
  | blank c white =>
    obtain rfl : c = d := by simpa [Filler.written] using first
    cases part : isWordPart c with
    | false => rfl
    | true =>
      rw [isBlank_of_isWordPart part] at white
      cases white
  | lineComment | blockComment =>
    obtain rfl : '/' = d := by simpa [Filler.written] using first
    decide

end Piece

namespace Lexeme

variable {file : String} {point : Point} {comments : String}

/-- What becomes of a text that goes on from `point` while these comments wait for a token. -/
def scan (file : String) (point : Point) (comments : String) (cs : List Char) :
    List Lexeme × List Diagnostic :=
  place file point comments (Piece.split cs)

theorem scan_blank {c : Char} (white : Text.isBlank c = true) (cs : List Char) :
    scan file point comments (c :: cs) = scan file (point.after c) comments cs := by
  have run (p : Point) (d : Char) (ds : List Char) (white : Text.isBlank d = true) :
      scan file p comments (d :: ds) =
        scan file ((p.after d).afterAll (ds.takeWhile Text.isBlank)) comments
          (ds.dropWhile Text.isBlank) := by
    rw [scan, Piece.split_cons (Piece.first_of_blank white ds) (by simp)]
    rfl
  rw [run point c cs white]
  cases cs with
  | nil => rfl
  | cons d ds =>
    by_cases next : Text.isBlank d = true
    · rw [List.takeWhile_cons_of_pos next, List.dropWhile_cons_of_pos next, run _ d ds next]
      rfl
    · rw [List.takeWhile_cons_of_neg next, List.dropWhile_cons_of_neg next]
      rfl

/-- A filler leaves its comment waiting. -/
theorem scan_filler (f : Filler) (cs : List Char) :
    scan file point comments (f.written ++ cs) =
      scan file (point.afterAll f.written) (comments ++ f.comment) cs := by
  cases f with
  | blank c white =>
    rw [Filler.comment, String.append_empty]
    exact scan_blank white cs
  | lineComment body inside =>
    have chars : (Filler.lineComment body inside).written ++ cs =
        '/' :: '/' :: (body ++ '\n' :: cs) := by simp [Filler.written]
    rw [chars, scan, Piece.split_cons (Piece.first_lineComment inside cs) (by simp)]
    have comment : (Filler.lineComment body inside).comment =
        String.ofList ('/' :: '/' :: body) ++ "\n" := by
      apply String.toList_inj.1
      simp [Filler.comment, Filler.written]
    rw [comment, ← String.append_assoc]
    -- the line feed is not a part of the comment, but the first blank after it
    exact (scan_blank (by decide) cs).trans (by simp [Filler.written, Point.afterAll])
  | blockComment body first =>
    have chars : (Filler.blockComment body first).written ++ cs =
        '/' :: '*' :: (body ++ '*' :: '/' :: cs) := by simp [Filler.written, Piece.commentEnd]
    rw [chars, scan, Piece.split_cons (Piece.first_blockComment first cs) (by simp)]
    rfl

theorem scan_separator (s : Separator) (cs : List Char) :
    scan file point comments (s.written ++ cs) =
      scan file (point.afterAll s.written) (comments ++ s.comments) cs := by
  induction s generalizing point comments with
  | nil => simp [Point.afterAll]
  | cons f s ih =>
    rw [Separator.written_cons, List.append_assoc, scan_filler, ih, Point.afterAll_append,
      Separator.comments_cons, String.append_assoc]

/-- A token takes the comments that wait. -/
theorem scan_token {t : Token} (written : t.Written) {cs : List Char} (apart : Piece.Apart cs) :
    scan file point comments (t.written ++ cs) =
      (⟨t, ⟨file, point, point.afterAll t.written⟩, comments⟩ ::
          (scan file (point.afterAll t.written) "" cs).1,
        (scan file (point.afterAll t.written) "" cs).2) := by
  obtain ⟨c, rest, chars, head⟩ := Piece.first_of_written written apart
  rw [chars, scan, Piece.split_cons head (by simp)]
  rfl

/-! ## Texts -/

/-- The text of tokens, each behind its separator, with one separator more at the end. -/
def writtenApart (items : List (Separator × Token)) (after : Separator) : List Char :=
  items.flatMap (fun (separator, token) => separator.written ++ token.written) ++ after.written

/-- The lexemes of tokens that follow from `point` on, each behind its separator. -/
def layOut (file : String) (point : Point) : List (Separator × Token) → List Lexeme
  | [] => []
  | (separator, token) :: items =>
    let start := point.afterAll separator.written
    let stop := start.afterAll token.written
    ⟨token, ⟨file, start, stop⟩, separator.comments⟩ :: layOut file stop items

theorem layOut_reads (file : String) (point : Point) (items : List (Separator × Token)) :
    (layOut file point items).map (fun l => (l.comments, l.token)) =
      items.map fun (separator, token) => (separator.comments, token) := by
  induction items generalizing point with
  | nil => rfl
  | cons item items ih => exact congrArg (List.cons _) (ih _)

theorem apart_writtenApart {items : List (Separator × Token)} (after : Separator)
    (apart : ∀ item ∈ items, item.1 ≠ []) : Piece.Apart (writtenApart items after) := by
  cases items with
  | nil =>
    by_cases none : after = []
    · subst none
      simp [writtenApart, Piece.Apart]
    · simpa [writtenApart] using Piece.apart_written none []
  | cons item items =>
    have some := apart item List.mem_cons_self
    simpa [writtenApart] using Piece.apart_written some _

theorem scan_writtenApart {items : List (Separator × Token)} (after : Separator)
    (written : ∀ item ∈ items, item.2.Written) (apart : ∀ item ∈ items.tail, item.1 ≠ []) :
    scan file point "" (writtenApart items after) =
      (layOut file point items ++ [eof file (point.afterAll (writtenApart items after))], []) := by
  induction items generalizing point with
  | nil =>
    have last := @scan_separator file point "" after []
    rw [List.append_nil] at last
    rw [show writtenApart [] after = after.written from rfl, last, scan, Piece.split]
    rfl
  | cons item items ih =>
    obtain ⟨separator, token⟩ := item
    obtain ⟨own, others⟩ := List.forall_mem_cons.1 written
    have chars : writtenApart ((separator, token) :: items) after =
        separator.written ++ (token.written ++ writtenApart items after) := by
      simp [writtenApart]
    have rest := @ih ((point.afterAll separator.written).afterAll token.written) others
      fun item member => apart item (List.mem_of_mem_tail member)
    have ended : Piece.Apart (writtenApart items after) := apart_writtenApart after apart
    rw [chars, scan_separator, String.empty_append, scan_token own ended, rest]
    simp [layOut]

/-- Scanning undoes writing. The lexemes of tokens that are written with separators between them are
these tokens, in order, each in its place and with the comments of the separator before it; then the
end of the file, without comments. Nothing is reported. -/
theorem ofText_writtenApart (file : String) (items : List (Separator × Token)) (after : Separator)
    (written : ∀ item ∈ items, item.2.Written) (apart : ∀ item ∈ items.tail, item.1 ≠ []) :
    ofText file (String.ofList (writtenApart items after)) =
        (layOut file ⟨1, 1⟩ items ++
          [eof file (Point.afterAll ⟨1, 1⟩ (writtenApart items after))], []) ∧
      (layOut file ⟨1, 1⟩ items).map (fun l => (l.comments, l.token)) =
        items.map fun (separator, token) => (separator.comments, token) := by
  refine ⟨?_, layOut_reads file _ items⟩
  have whole := @scan_writtenApart file ⟨1, 1⟩ items after written apart
  rw [scan] at whole
  rw [ofText, String.toList_ofList, whole]

/-- Comments with a quote, stars and slashes in them, right before and after tokens. -/
def tightItems : List (Separator × Token) :=
  [([], .number "-0x"),
   ([.blockComment ['"', '/', '*', '*'] (by decide)], .string "\"/*\""),
   ([.lineComment ['*', '/', '"'] (by decide), .blank '\t' (by decide), .blockComment [] (by decide)],
    .word "_1"),
   ([.blank ' ' (by decide)], .mark .dot)]

def tightText : String := "-0x/*\"/***/\"/*\"//*/\"\n\t/**/_1 .//\n"

theorem tightText_written :
    String.ofList (writtenApart tightItems [.lineComment [] (by decide)]) = tightText := by
  decide

theorem tightText_scanned :
    (∀ item ∈ tightItems, item.2.Written) ∧ (∀ item ∈ tightItems.tail, item.1 ≠ []) ∧
      ∃ ls last, ofText "t.aidl" tightText = (ls ++ [last], []) ∧
        ls.map (fun l => (l.comments, l.token)) =
          [("", .number "-0x"), ("/*\"/***/", .string "\"/*\""), ("//*/\"\n/**/", .word "_1"),
           ("", .mark .dot)] ∧
        last.token = .eof ∧ last.comments = "" := by
  have written : ∀ item ∈ tightItems, item.2.Written := by
    intro item member
    simp only [tightItems, List.mem_cons, List.not_mem_nil, or_false] at member
    rcases member with rfl | rfl | rfl | rfl
    · exact @Token.Written.number ['-'] ['x'] '0' (.inr rfl) (by decide)
        (List.forall_mem_singleton.2 (by decide))
    · exact @Token.Written.string ['/', '*'] (by simp)
    · exact .word (by decide)
    · exact .mark .dot
  have apart : ∀ item ∈ tightItems.tail, item.1 ≠ [] := by simp [tightItems]
  obtain ⟨whole, reads⟩ :=
    ofText_writtenApart "t.aidl" tightItems [.lineComment [] (by decide)] written apart
  rw [tightText_written] at whole
  refine ⟨written, apart, _, _, whole, ?_, rfl, rfl⟩
  rw [reads]
  decide

end Lexeme

end IdlFrontEnd
