import IdlFrontEnd.Proofs.Token.Written
import IdlFrontEnd.Text.Layout

/-!
# Texts written token by token

A text that is written token by token is cut into the same tokens again, as long as no token runs on
into what follows it: behind a word or a number there is a character that belongs to neither. A line
has spaces between its tokens; a layout puts lines one below the other with more spaces in front.
-/
namespace IdlFrontEnd

namespace Piece

/-- The text does not carry on a word or a number that ends in front of it. -/
def Apart (rest : List Char) : Prop := ∀ d ∈ rest.head?, isWordPart d = false

/-- The text is cut into these tokens with nothing but white space between them. -/
def Scans (cs : List Char) (ts : List Token) : Prop :=
  ((split cs).map Piece.kind).filter (· ≠ .blank) = ts.map PieceKind.token

theorem scans_nil : Scans [] [] := by
  simp [Scans, split]

theorem scans_cons {c : Char} {cs rest text : List Char} {t : Token} {ts : List Token}
    (head : first c cs = (⟨.token t, text⟩, rest)) (others : Scans rest ts) :
    Scans (c :: cs) (t :: ts) := by
  unfold Scans split
  rw [head]
  simpa [Scans] using others

theorem first_of_ne {c : Char} (other : c ≠ '/') (cs : List Char) : first c cs = plainFirst c cs := by
  unfold first
  split
  · exact absurd rfl other
  · exact absurd rfl other
  · rfl

theorem first_of_blank {c : Char} (blank : Text.isBlank c = true) (cs : List Char) :
    first c cs = run (fun _ => .blank) Text.isBlank c cs := by
  have other : c ≠ '/' := by
    rintro rfl
    revert blank
    decide
  rw [first_of_ne other, plainFirst, if_pos blank]

/-- White space in front of a text changes nothing. -/
theorem scans_blank {c : Char} {cs : List Char} {ts : List Token} (blank : Text.isBlank c = true)
    (others : Scans cs ts) : Scans (c :: cs) ts := by
  have kinds : ∀ d ds, Text.isBlank d = true →
      ((split (d :: ds)).map Piece.kind).filter (· ≠ .blank) =
        ((split (ds.dropWhile Text.isBlank)).map Piece.kind).filter (· ≠ .blank) := by
    intro d ds white
    rw [split, first_of_blank white]
    simp [run]
  unfold Scans at others ⊢
  rw [kinds c cs blank, ← others]
  cases cs with
  | nil => rfl
  | cons d ds =>
    by_cases white : Text.isBlank d = true
    · rw [List.dropWhile_cons_of_pos white, kinds d ds white]
    · rw [List.dropWhile_cons_of_neg white]

/-! ## One token in front of a text -/

theorem run_eq {kind : List Char → PieceKind} {p : Char → Bool} {c : Char} {cs rest : List Char}
    (parts : ∀ d ∈ cs, p d = true) (longest : ∀ d ∈ rest.head?, p d = false) :
    run kind p c (cs ++ rest) = (⟨kind (c :: cs), c :: cs⟩, rest) := by
  have stopped : rest.takeWhile p = [] ∧ rest.dropWhile p = rest := by
    cases rest with
    | nil => simp
    | cons d ds => simp [longest d (by simp)]
  unfold run
  rw [List.takeWhile_append_of_pos parts, List.dropWhile_append_of_pos parts, stopped.1, stopped.2,
    List.append_nil]

theorem isLetter_iff {c : Char} :
    isLetter c = true ↔ 97 ≤ c.toNat ∧ c.toNat ≤ 122 ∨ 65 ≤ c.toNat ∧ c.toNat ≤ 90 := by
  simp [isLetter, Char.le_def, UInt32.le_iff_toNat_le]

theorem isDigit_iff {c : Char} : isDigit c = true ↔ 48 ≤ c.toNat ∧ c.toNat ≤ 57 := by
  simp [isDigit, Char.le_def, UInt32.le_iff_toNat_le]

theorem isBlank_eq_false {c : Char} (visible : 33 ≤ c.toNat) (ascii : c.toNat ≤ 126) :
    Text.isBlank c = false := by
  simp [Text.isBlank, Text.blankRanges]
  omega

theorem isBlank_of_isWordPart {c : Char} (part : isWordPart c = true) : Text.isBlank c = false := by
  simp only [isWordPart, isWordStart, Bool.or_eq_true, isLetter_iff, isDigit_iff,
    decide_eq_true_eq] at part
  rcases part with (letter | rfl) | digit
  · exact isBlank_eq_false (by omega) (by omega)
  · decide
  · exact isBlank_eq_false (by omega) (by omega)

theorem first_word {c : Char} {cs rest : List Char} (start : isWordStart c = true)
    (parts : ∀ d ∈ cs, isWordPart d = true) (apart : Apart rest) :
    first c (cs ++ rest) = (⟨.token (.word (String.ofList (c :: cs))), c :: cs⟩, rest) := by
  have code : 97 ≤ c.toNat ∧ c.toNat ≤ 122 ∨ 65 ≤ c.toNat ∧ c.toNat ≤ 90 ∨ c.toNat = 95 := by
    simp only [isWordStart, Bool.or_eq_true, isLetter_iff, decide_eq_true_eq] at start
    rcases start with letter | rfl
    · omega
    · decide
  have differs (d : Char) (other : d.toNat < 65) : c ≠ d := by
    rintro rfl
    omega
  have notDigit : isDigit c = false := by
    rw [Bool.eq_false_iff, ne_eq, isDigit_iff]
    omega
  have notBlank : Text.isBlank c = false := isBlank_eq_false (by omega) (by omega)
  have notNumber : isNumberStart c (cs ++ rest) = false := by
    simp [isNumberStart, notDigit, differs '-' (by decide)]
  rw [first_of_ne (differs '/' (by decide)), plainFirst, if_neg (by simp [notBlank]),
    if_neg (differs '"' (by decide)), if_neg (by simp [notNumber]), if_pos start]
  exact run_eq parts apart

theorem first_number {c : Char} {cs rest : List Char} (start : isNumberStart c (cs ++ rest) = true)
    (parts : ∀ d ∈ cs, isNumberPart d = true) (apart : Apart rest) :
    first c (cs ++ rest) = (⟨.token (.number (String.ofList (c :: cs))), c :: cs⟩, rest) := by
  have code : 48 ≤ c.toNat ∧ c.toNat ≤ 57 ∨ c.toNat = 45 := by
    simp only [isNumberStart, Bool.or_eq_true, Bool.and_eq_true, isDigit_iff,
      decide_eq_true_eq] at start
    rcases start with digit | ⟨rfl, -⟩
    · omega
    · decide
  have differs (d : Char) (other : d.toNat = 34 ∨ d.toNat = 47) : c ≠ d := by
    rintro rfl
    omega
  have notBlank : Text.isBlank c = false := isBlank_eq_false (by omega) (by omega)
  have longest : ∀ d ∈ rest.head?, isNumberPart d = false := by
    intro d next
    have other := apart d next
    simp only [isWordPart, isWordStart, Bool.or_eq_false_iff] at other
    simp [isNumberPart, other]
  rw [first_of_ne (differs '/' (by decide)), plainFirst, if_neg (by simp [notBlank]),
    if_neg (differs '"' (by decide)), if_pos start]
  exact run_eq parts longest

theorem first_string {inside rest : List Char} (parts : ∀ d ∈ inside, d ≠ '"' ∧ d ≠ '\n') :
    first '"' (inside ++ '"' :: rest) =
      (⟨.token (.string (String.ofList ('"' :: inside ++ ['"']))), '"' :: inside ++ ['"']⟩,
        rest) := by
  have plain : ∀ d ∈ inside, isStringPart d = true := by
    intro d member
    simp [isStringPart, parts d member]
  have notBlank : Text.isBlank '"' = false := by decide
  rw [first_of_ne (by decide), plainFirst, if_neg (by simp [notBlank]), if_pos rfl]
  unfold stringFirst
  rw [List.takeWhile_append_of_pos plain, List.dropWhile_append_of_pos plain]
  have closing : isStringPart '"' = false := by decide
  rw [List.takeWhile_cons_of_neg (by simp [closing]), List.dropWhile_cons_of_neg (by simp [closing])]
  simp

theorem first_mark (m : Mark) (rest : List Char) :
    first m.char rest = (⟨.token (.mark m), [m.char]⟩, rest) := by
  have other : m.char ≠ '/' := by cases m <;> decide
  have notBlank : Text.isBlank m.char = false := by cases m <;> decide
  have notQuote : m.char ≠ '"' := by cases m <;> decide
  have notNumber : isNumberStart m.char rest = false := by
    have signless : m.char ≠ '-' := by cases m <;> decide
    have notDigit : isDigit m.char = false := by cases m <;> decide
    simp [isNumberStart, signless, notDigit]
  have notWord : isWordStart m.char = false := by cases m <;> decide
  have found : Mark.ofChar? m.char = some m := by cases m <;> decide
  rw [first_of_ne other, plainFirst, if_neg (by simp [notBlank]), if_neg notQuote,
    if_neg (by simp [notNumber]), if_neg (by simp [notWord]), markFirst, found]

/-! ## Lines -/

/-- The line is written with these tokens, with spaces wherever two of them would run into one. -/
inductive Line : List Char → List Token → Prop
  | nil : Line [] []
  | space {cs : List Char} {ts : List Token} (others : Line cs ts) : Line (' ' :: cs) ts
  | word {text : String} {cs : List Char} {ts : List Token}
      (identifier : Text.isIdentifier text = true) (apart : Apart cs) (others : Line cs ts) :
      Line (text.toList ++ cs) (.word text :: ts)
  | number {c : Char} {ds cs : List Char} {ts : List Token} (start : isNumberStart c ds = true)
      (parts : ∀ d ∈ ds, isNumberPart d = true) (apart : Apart cs) (others : Line cs ts) :
      Line (c :: (ds ++ cs)) (.number (String.ofList (c :: ds)) :: ts)
  | string {inside cs : List Char} {ts : List Token} (parts : ∀ d ∈ inside, d ≠ '"' ∧ d ≠ '\n')
      (others : Line cs ts) :
      Line ('"' :: (inside ++ '"' :: cs)) (.string (String.ofList ('"' :: inside ++ ['"'])) :: ts)
  | mark {cs : List Char} {ts : List Token} (m : Mark) (others : Line cs ts) :
      Line (m.char :: cs) (.mark m :: ts)

theorem Apart.append {cs rest : List Char} (first : Apart cs) (second : Apart rest) :
    Apart (cs ++ rest) := by
  cases cs with
  | nil => exact second
  | cons c cs => exact first

/-- A line is cut into its tokens, whatever comes after it. -/
theorem Line.scans {cs rest : List Char} {ts us : List Token} (line : Line cs ts)
    (apart : Apart rest) (others : Scans rest us) : Scans (cs ++ rest) (ts ++ us) := by
  induction line with
  | nil => exact others
  | space _ ih => exact scans_blank (by decide) ih
  | @word text cs ts identifier own _ ih =>
    unfold Text.isIdentifier at identifier
    split at identifier
    · cases identifier
    next c ds some =>
      simp only [Bool.and_eq_true, List.all_eq_true] at identifier
      have head := first_word identifier.1 identifier.2 (own.append apart)
      rw [← some, String.ofList_toList] at head
      rw [List.append_assoc, some]
      exact scans_cons head ih
  | @number c ds cs ts start parts own _ ih =>
    have more : isNumberStart c (ds ++ (cs ++ rest)) = true := by
      cases ds with
      | nil =>
        simp only [isNumberStart, List.head?_nil, Option.any_none, Bool.and_false,
          Bool.or_false] at start
        simp [isNumberStart, start]
      | cons d ds => exact start
    have head := first_number more parts (own.append apart)
    rw [List.cons_append, List.append_assoc]
    exact scans_cons head ih
  | string parts _ ih =>
    rw [List.cons_append, List.append_assoc]
    exact scans_cons (first_string parts) ih
  | mark m _ ih => exact scans_cons (first_mark m _) ih

theorem Line.no_newline {cs : List Char} {ts : List Token} (line : Line cs ts) : '\n' ∉ cs := by
  induction line with
  | nil => simp
  | space _ ih => simpa using ih
  | word identifier _ _ ih =>
    have inside : '\n' ∉ _ := fun member =>
      absurd (Text.isWordPart_of_isIdentifier identifier member) (by decide)
    simp [inside, ih]
  | @number c ds _ _ start parts _ _ ih =>
    have first : '\n' ≠ c := by
      rintro rfl
      revert start
      simp [isNumberStart, isDigit_iff]
    have inside : '\n' ∉ ds := fun member => absurd (parts _ member) (by decide)
    simp [first, inside, ih]
  | string parts _ ih =>
    have plain : '\n' ∉ _ := fun member => (parts '\n' member).2 rfl
    simp [plain, ih]
  | mark m _ ih =>
    have other : '\n' ≠ m.char := by cases m <;> decide
    simp [other, ih]

end Piece

/-! ## Lines one below the other -/

namespace Layout

/-- The layout is at the start of a line, and what it holds is cut into these tokens. -/
structure Scans (l : Layout) (ts : List Token) : Prop where
  atLineStart : l.atLineStart = true
  scans : ∀ rest us, Piece.Scans rest us → Piece.Scans (l.text.toList ++ rest) (ts ++ us)

theorem scans_empty (depth : Nat) : Scans ⟨"", depth, true⟩ [] :=
  ⟨rfl, fun _ _ others => others⟩

theorem Scans.indent {l : Layout} {ts : List Token} (scans : l.Scans ts) : l.indent.Scans ts :=
  ⟨scans.atLineStart, scans.scans⟩

theorem Scans.dedent {l : Layout} {ts : List Token} (scans : l.Scans ts) : l.dedent.Scans ts :=
  ⟨scans.atLineStart, scans.scans⟩

/-- Within a line characters are put down as they are. -/
theorem foldl_put {l : Layout} {cs : List Char} (inside : l.atLineStart = false)
    (plain : '\n' ∉ cs) : cs.foldl put l = { l with text := l.text ++ String.ofList cs } := by
  induction cs generalizing l with
  | nil => simp
  | cons c cs ih =>
    simp only [List.mem_cons, not_or] at plain
    have step : l.put c = { l with text := l.text.push c } := by
      have other : decide (c = '\n') = false := decide_eq_false (Ne.symm plain.1)
      simp [put, inside, other]
    have rest := @ih { l with text := l.text.push c } inside plain.2
    rw [List.foldl_cons, step, rest]
    apply congrArg (Layout.mk · l.depth l.atLineStart)
    apply String.toList_inj.1
    simp

theorem writeLine_eq {l : Layout} {line : String} (start : l.atLineStart = true)
    (some : line ≠ "") (plain : '\n' ∉ line.toList) :
    l.writeLine line = ⟨l.text ++ l.margin ++ line ++ "\n", l.depth, true⟩ := by
  obtain ⟨c, cs, whole⟩ : ∃ c cs, line.toList = c :: cs :=
    List.exists_cons_of_ne_nil (by simpa using some)
  rw [whole, List.mem_cons, not_or] at plain
  have first : l.put c = ⟨(l.text ++ l.margin).push c, l.depth, false⟩ := by
    have other : decide (c = '\n') = false := decide_eq_false (Ne.symm plain.1)
    simp [put, start, other]
  have inside : (c :: cs).foldl put l = ⟨l.text ++ l.margin ++ line, l.depth, false⟩ := by
    rw [List.foldl_cons, first, foldl_put rfl plain.2]
    apply congrArg (Layout.mk · l.depth false)
    apply String.toList_inj.1
    simp [whole]
  have last : "\n".toList = ['\n'] := rfl
  unfold writeLine write
  rw [String.toList_append, whole, last, List.foldl_append, inside]
  simp [put, ← String.append_singleton]

/-- One more line adds its tokens. -/
theorem Scans.writeLine {l : Layout} {ts us : List Token} {line : String} (scans : l.Scans ts)
    (some : line ≠ "") (own : Piece.Line line.toList us) : (l.writeLine line).Scans (ts ++ us) := by
  rw [writeLine_eq scans.atLineStart some own.no_newline]
  refine ⟨rfl, ?_⟩
  intro rest vs others
  have ended : Piece.Scans ('\n' :: rest) vs := Piece.scans_blank (by decide) others
  have apart : Piece.Apart ('\n' :: rest) := by
    intro d next
    cases next
    decide
  have margin : ∀ n, Piece.Scans (List.replicate n ' ' ++ (line.toList ++ '\n' :: rest)) (us ++ vs) := by
    intro n
    induction n with
    | zero => exact own.scans apart ended
    | succ n ih => exact Piece.scans_blank (by decide) ih
  have whole := scans.scans _ _ (margin (2 * l.depth))
  simpa [Layout.margin] using whole

end Layout

/-! ## Lexemes -/

/-- A text that is cut into tokens is read as these tokens, without a report. -/
theorem Lexeme.ofText_of_scans {text : String} {ts : List Token}
    (scans : Piece.Scans text.toList ts) (file : String) :
    ∃ ls last, ofText file text = (ls ++ [last], []) ∧ ls.map token = ts ∧ last.token = .eof := by
  apply ofText_of_visible
  have tokens := congrArg (List.filter PieceKind.isVisible) scans
  rw [List.filter_filter] at tokens
  have own : (ts.map PieceKind.token).filter PieceKind.isVisible = ts.map PieceKind.token := by
    rw [List.filter_eq_self]
    intro kind member
    obtain ⟨t, -, rfl⟩ := List.mem_map.1 member
    rfl
  rw [own] at tokens
  rw [← tokens]
  refine List.filter_congr fun kind _ => ?_
  cases kind <;> simp [PieceKind.isVisible]

end IdlFrontEnd
