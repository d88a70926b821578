import IdlFrontEnd.Proofs.Grammar.Shown
import IdlFrontEnd.Proofs.Text.Digits

/-!
# What a literal of a text is

A text that is scanned as one number or one string is a literal. A decimal numeral is the number it
denotes, if that has 32 bits with a sign; a hexadecimal one is a bit pattern of 32 bits; a string is
what stands between its quotes, if all of it is printable ASCII other than the backslash. Any other
number or string becomes an invalid value with one report. Values other than that are read back from
the text they are shown with.
-/
namespace IdlFrontEnd

open Piece (Line)
open Text (Spells)

/-- The token is a numeral for the number: decimal digits with an optional minus sign, or the bit
pattern of the number in hexadecimal digits. -/
inductive Token.DenotesInt : Token → Int → Prop
  | decimal {cs : List Char} {n : Nat} (digits : Spells 10 cs n) (high : (n : Int) < 2 ^ 31) :
      DenotesInt (.number (String.ofList cs)) n
  | negative {cs : List Char} {n : Nat} (digits : Spells 10 cs n) (low : -2 ^ 31 ≤ -(n : Int)) :
      DenotesInt (.number (String.ofList ('-' :: cs))) (-n)
  | hexadecimal {x : Char} {cs : List Char} {n : Nat} {v : Int} (mark : x = 'x' ∨ x = 'X')
      (digits : Spells 16 cs n) (small : n < 2 ^ 32) (low : -2 ^ 31 ≤ v) (high : v < 2 ^ 31)
      (same : v ≡ n [ZMOD 2 ^ 32]) : DenotesInt (.number (String.ofList ('0' :: x :: cs))) v

/-- The token is a string of printable ASCII without a backslash, and this is between its quotes. -/
inductive Token.DenotesText : Token → String → Prop
  | mk {inside : List Char} (plain : ∀ c ∈ inside, 0x20 ≤ c.toNat ∧ c.toNat ≤ 0x7E ∧ c ≠ '\\') :
      DenotesText (.string (String.ofList ('"' :: inside ++ ['"']))) (String.ofList inside)

/-- What is made of a token that denotes something, and of one that does not. -/
structure Literal.Decided (t : Token) (v : LiteralValue) (notes : List Diagnostic) : Prop where
  int : ∀ n, t.DenotesInt n → v.int? = some n ∧ notes = []
  text : ∀ s, t.DenotesText s → v.string? = some s ∧ notes = []
  otherwise : (∀ n, ¬ t.DenotesInt n) → (∀ s, ¬ t.DenotesText s) →
    v = .invalid ∧ ∃ d, notes = [d]

/-! ## Numbers -/

theorem Token.Written.unsigned {text : String} (written : (Token.number text).Written) :
    '+' ∉ text.toList := by
  cases written with
  | @number sign parts d signed digit each =>
    rw [String.toList_ofList]
    intro member
    rcases List.mem_append.1 member with inSign | inside
    · rcases signed with rfl | rfl
      · cases inSign
      · exact absurd inSign (by decide)
    · rcases List.mem_cons.1 inside with rfl | later
      · exact absurd digit (by decide)
      · exact absurd (each _ later) (by decide)

namespace Text

/-- The value of a number, hexadecimal if it opens with `0x` or `0X`. -/
def numeral? (text : String) : Option Int :=
  if (hexDigits? text.toList).isSome then hexadecimal? text else decimal? text

theorem numeral?_bounds {text : String} {v : Int} (value : numeral? text = some v) :
    int32Min ≤ v ∧ v ≤ int32Max := by
  unfold numeral? at value
  split at value
  · exact Grammar.hexadecimal?_bounds value
  · exact Grammar.decimal?_bounds value

theorem decimal?_eq_some_iff {text : String} {v : Int} :
    decimal? text = some v ↔ signed? text.toList = some v ∧ -2 ^ 31 ≤ v ∧ v < 2 ^ 31 := by
  unfold decimal? int32Min int32Max
  rw [Option.filter_eq_some_iff, decide_eq_true_eq]
  apply and_congr_right
  intro _
  omega

theorem hexadecimal?_eq_some_iff {text : String} {v : Int} :
    hexadecimal? text = some v ↔ ∃ digits n, hexDigits? text.toList = some digits ∧
      pattern? digits = some n ∧ n < 2 ^ 32 ∧ ofPattern n = v := by
  unfold hexadecimal?
  simp only [Option.map_eq_some_iff, Option.filter_eq_some_iff, Option.bind_eq_some_iff]
  constructor
  · rintro ⟨n, ⟨⟨digits, opened, value⟩, small⟩, same⟩
    exact ⟨digits, n, opened, value, of_decide_eq_true small, same⟩
  · rintro ⟨digits, n, opened, value, small, same⟩
    exact ⟨n, ⟨⟨digits, opened, value⟩, decide_eq_true small⟩, same⟩

/-- The value of a number without a plus sign is what it denotes. -/
theorem numeral?_eq_some_iff {text : String} (unsigned : '+' ∉ text.toList) {v : Int} :
    numeral? text = some v ↔ (Token.number text).DenotesInt v := by
  constructor
  · intro value
    unfold numeral? at value
    cases opened : hexDigits? text.toList with
    | some digits =>
      rw [opened, if_pos Option.isSome_some] at value
      obtain ⟨_, n, same, pattern, small, own⟩ := hexadecimal?_eq_some_iff.1 value
      obtain rfl := Option.some.inj (opened.symm.trans same)
      obtain ⟨x, mark, whole⟩ := hexDigits?_eq_some_iff.1 opened
      have plain : '+' ∉ digits := by
        intro member
        exact unsigned (by simp [whole, member])
      rw [pattern?_of_unsigned plain] at pattern
      obtain ⟨low, high, congruent⟩ := ofPattern_eq_iff.1 own
      rw [← @String.ofList_toList text, whole]
      exact .hexadecimal mark ((digits?_eq_some_iff (by decide)).1 pattern) small low high congruent
    | none =>
      rw [opened, if_neg (by simp)] at value
      obtain ⟨signed, low, high⟩ := decimal?_eq_some_iff.1 value
      rw [← @String.ofList_toList text]
      rcases (signed?_eq_some_iff unsigned).1 signed with
        ⟨n, spelled, rfl⟩ | ⟨digits, n, whole, spelled, rfl⟩
      · exact .decimal spelled high
      · rw [whole]
        exact .negative spelled low
  · intro denotes
    unfold numeral?
    cases denotes with
    | @decimal cs n digits high =>
      rw [String.toList_ofList] at unsigned
      rw [String.toList_ofList, hexDigits?_of_spells digits, if_neg (by simp),
        decimal?_eq_some_iff, String.toList_ofList]
      exact ⟨(signed?_eq_some_iff unsigned).2 (.inl ⟨n, digits, rfl⟩), by omega, high⟩
    | @negative cs n digits low =>
      rw [String.toList_ofList] at unsigned
      rw [String.toList_ofList, hexDigits?_minus, if_neg (by simp), decimal?_eq_some_iff,
        String.toList_ofList]
      exact ⟨(signed?_eq_some_iff unsigned).2 (.inr ⟨cs, n, rfl, digits, rfl⟩), low, by omega⟩
    | @hexadecimal x cs n v mark digits small low high same =>
      have opened : hexDigits? ('0' :: x :: cs) = some cs :=
        hexDigits?_eq_some_iff.2 ⟨x, mark, rfl⟩
      have plain : '+' ∉ cs := digits.not_mem (by decide) (by decide)
      rw [String.toList_ofList, opened, if_pos Option.isSome_some, hexadecimal?_eq_some_iff,
        String.toList_ofList]
      refine ⟨cs, n, opened, ?_, small, ofPattern_eq_iff.2 ⟨low, high, same⟩⟩
      rw [pattern?_of_unsigned plain]
      exact (digits?_eq_some_iff (by decide)).2 digits

end Text

namespace Literal

theorem ofNumber_eq_numeral (location : Location) (text : String) :
    ofNumber location text = numeral location text (Text.numeral? text) := by
  unfold ofNumber Text.numeral?
  split
  · rfl
  · rfl

theorem ofNumber_decided {text : String} (written : (Token.number text).Written)
    (location : Location) :
    Decided (.number text) (ofNumber location text).1.value (ofNumber location text).2 := by
  have value {v : Int} := @Text.numeral?_eq_some_iff text written.unsigned v
  rw [ofNumber_eq_numeral]
  cases known : Text.numeral? text with
  | some n =>
    have denoted : (Token.number text).DenotesInt n := value.1 known
    refine ⟨?_, nofun, fun none _ => absurd denoted (none n)⟩
    intro m denotes
    rw [value.2 denotes] at known
    cases known
    exact ⟨rfl, rfl⟩
  | none =>
    refine ⟨?_, nofun, fun _ _ => ⟨rfl, _, rfl⟩⟩
    intro m denotes
    rw [value.2 denotes] at known
    cases known

theorem ofNumber_spelled (location : Location) (text : String) :
    (ofNumber location text).1.value = .invalid ∨ (ofNumber location text).1.value.Spelled := by
  rw [ofNumber_eq_numeral]
  cases known : Text.numeral? text with
  | some n =>
    obtain ⟨low, high⟩ := Text.numeral?_bounds known
    exact .inr (.int low high)
  | none => exact .inl rfl

/-! ## Strings -/

theorem isPlain_iff {c : Char} :
    isPlain c = true ↔ 0x20 ≤ c.toNat ∧ c.toNat ≤ 0x7E ∧ c ≠ '\\' := by
  unfold isPlain
  simp only [Bool.and_eq_true, decide_eq_true_eq, and_assoc]
  rw [Nat.lt_succ_iff]

/-- Quotes are plain, so only what stands between them decides. -/
theorem findIdx?_quoted {inside : List Char} :
    ('"' :: inside ++ ['"']).findIdx? (!isPlain ·) = none ↔ ∀ c ∈ inside, isPlain c = true := by
  have quote : isPlain '"' = true := by decide
  rw [List.findIdx?_eq_none_iff, List.forall_mem_append, List.forall_mem_cons]
  simp [quote]

theorem string?_quoted {inside : List Char} (unquoted : '"' ∉ inside) :
    (LiteralValue.string (String.ofList ('"' :: inside ++ ['"']))).string? =
      some (String.ofList inside) := by
  have bare {cs : List Char} (none : '"' ∉ cs) : cs.dropWhile (· = '"') = cs := by
    cases cs with
    | nil => rfl
    | cons c cs =>
      rw [List.dropWhile_cons_of_neg]
      simpa [eq_comm] using (not_or.1 (List.mem_cons.not.1 none)).1
  have whole : LiteralValue.string?.unquoted ('"' :: inside ++ ['"']) = inside := by
    unfold LiteralValue.string?.unquoted
    cases inside with
    | nil => rfl
    | cons c cs =>
      have other : c ≠ '"' := by
        rintro rfl
        exact unquoted List.mem_cons_self
      have back : '"' ∉ (c :: cs).reverse := by rwa [List.mem_reverse]
      rw [List.cons_append, List.dropWhile_cons_of_pos (by simp), List.cons_append,
        List.dropWhile_cons_of_neg (by simpa using other), ← List.cons_append,
        List.reverse_append, List.reverse_singleton, List.singleton_append,
        List.dropWhile_cons_of_pos (by simp), bare back, List.reverse_reverse]
  rw [LiteralValue.string?, String.toList_ofList, whole]

theorem denotesText_iff {inside : List Char} {s : String} :
    (Token.string (String.ofList ('"' :: inside ++ ['"']))).DenotesText s ↔
      s = String.ofList inside ∧ ∀ c ∈ inside, isPlain c = true := by
  constructor
  · generalize whole : String.ofList ('"' :: inside ++ ['"']) = quoted
    intro denotes
    cases denotes with
    | @mk other plain =>
      have chars := congrArg String.toList whole
      simp only [String.toList_ofList, List.cons_append, List.cons.injEq, true_and] at chars
      obtain rfl : inside = other := List.append_cancel_right chars
      exact ⟨rfl, fun c member => isPlain_iff.2 (plain c member)⟩
  · rintro ⟨rfl, plain⟩
    exact .mk fun c member => isPlain_iff.1 (plain c member)

theorem ofString_decided {inside : List Char} (parts : ∀ c ∈ inside, c ≠ '"' ∧ c ≠ '\n')
    (location : Location) :
    Decided (.string (String.ofList ('"' :: inside ++ ['"'])))
      (ofString location (String.ofList ('"' :: inside ++ ['"']))).1.value
      (ofString location (String.ofList ('"' :: inside ++ ['"']))).2 := by
  unfold ofString
  rw [String.toList_ofList]
  split
  next index crooked =>
    refine ⟨nofun, ?_, fun _ _ => ⟨rfl, _, rfl⟩⟩
    intro s denotes
    rw [findIdx?_quoted.2 (denotesText_iff.1 denotes).2] at crooked
    cases crooked
  next plain =>
    have denoted := denotesText_iff.2 ⟨rfl, findIdx?_quoted.1 plain⟩
    refine ⟨nofun, ?_, fun _ none => absurd denoted (none _)⟩
    intro s denotes
    rw [(denotesText_iff.1 denotes).1]
    exact ⟨string?_quoted fun member => (parts '"' member).1 rfl, rfl⟩

theorem ofString_spelled {inside : List Char} (parts : ∀ c ∈ inside, c ≠ '"' ∧ c ≠ '\n')
    (location : Location) :
    (ofString location (String.ofList ('"' :: inside ++ ['"']))).1.value = .invalid ∨
      (ofString location (String.ofList ('"' :: inside ++ ['"']))).1.value.Spelled := by
  unfold ofString
  rw [String.toList_ofList]
  split
  · exact .inl rfl
  next plain =>
    have each := findIdx?_quoted.1 plain
    exact .inr (.string fun c member => ⟨(parts c member).1, each c member⟩)

end Literal

/-! ## Literals of a text -/

namespace Grammar

/-- The text that a value is shown with is one token, and as a literal it is this value again. -/
def ReadsBack (v : LiteralValue) : Prop :=
  ∀ (file : String) (previous : Location), ∃ l last again,
    Lexeme.ofText file v.text = ([l, last], []) ∧ last.token = .eof ∧
      literal ⟨[l, last], previous, []⟩ = .ok again ⟨[last], l.location, []⟩ ∧ again.value = v

theorem readsBack_of_spelled {v : LiteralValue} (spelled : v.Spelled) : ReadsBack v := by
  intro file previous
  obtain ⟨ts, writes, derives⟩ := literal_shown spelled
  have line := writes [] [] apart_nil .nil
  have scans : Piece.Scans v.text.toList ts := by
    simpa using @Line.scans _ [] _ [] line apart_nil Piece.scans_nil
  obtain ⟨ls, last, whole, tokens, closing⟩ := Lexeme.ofText_of_scans scans file
  obtain ⟨again, derived, same⟩ := derives ls tokens
  have value : again.value = v := congrArg Literal.value same
  cases derived with
  | @number l text _ token own =>
    refine ⟨l, last, again, whole, closing, ?_, value⟩
    rw [literal_of_number token, own]
    rfl
  | @string l quoted _ token own =>
    refine ⟨l, last, again, whole, closing, ?_, value⟩
    rw [literal_of_string token, own]
    rfl

/-- A text that is one number or string without a report is decided as a literal: if it denotes a
number or a text, that is its value, and else it is invalid with one report. Every valid value is
read back from the text it is shown with. -/
theorem literal_of_text {file source : String} {l last : Lexeme}
    (read : Lexeme.ofText file source = ([l, last], []))
    (kind : (∃ text, l.token = .number text) ∨ ∃ quoted, l.token = .string quoted)
    (previous : Location) :
    ∃ v notes, literal ⟨[l, last], previous, []⟩ = .ok v ⟨[last], l.location, notes⟩ ∧
      Literal.Decided l.token v.value notes ∧ (v.value ≠ .invalid → ReadsBack v.value) := by
  have written : l.token.Written := by
    obtain ⟨ls, closing, whole, -, each⟩ := Lexeme.ofText_written file source
    have parts : [l] ++ [last] = ls ++ [closing] := (congrArg Prod.fst read).symm.trans whole
    obtain ⟨rfl, -⟩ := List.append_inj' parts rfl
    exact each l List.mem_cons_self
  rcases kind with ⟨text, token⟩ | ⟨quoted, token⟩
  · rw [token] at written ⊢
    refine ⟨_, _, literal_of_number token, Literal.ofNumber_decided written _, fun valid => ?_⟩
    exact readsBack_of_spelled ((Literal.ofNumber_spelled _ _).resolve_left valid)
  · rw [token] at written ⊢
    cases written with
    | string parts =>
      refine ⟨_, _, literal_of_string token, Literal.ofString_decided parts _, fun valid => ?_⟩
      exact readsBack_of_spelled ((Literal.ofString_spelled parts _).resolve_left valid)

/-- All 32 bits are set, so the value is the largest negative number. -/
theorem allBits_decided :
    ∃ l last v, Lexeme.ofText "t.aidl" "/* -1 */0xFFFFffff" = ([l, last], []) ∧
      l.token = .number "0xFFFFffff" ∧
      literal ⟨[l, last], .nowhere, []⟩ = .ok v ⟨[last], l.location, []⟩ ∧
      v.value.int? = some (-1) ∧ ReadsBack v.value := by
  let l : Lexeme := ⟨.number "0xFFFFffff", ⟨"t.aidl", ⟨1, 9⟩, ⟨1, 19⟩⟩, "/* -1 */"⟩
  have read : Lexeme.ofText "t.aidl" "/* -1 */0xFFFFffff" = ([l, .eof "t.aidl" ⟨1, 19⟩], []) := by
    decide +kernel
  have digits : Spells 16 ['F', 'F', 'F', 'F', 'f', 'f', 'f', 'f'] 0xFFFFFFFF :=
    (Text.digits?_eq_some_iff (by decide)).1 (by decide)
  have denotes : l.token.DenotesInt (-1) :=
    .hexadecimal (.inl rfl) digits (by decide) (by decide) (by decide) (by decide)
  obtain ⟨v, notes, made, decided, again⟩ :=
    literal_of_text read (.inl ⟨"0xFFFFffff", rfl⟩) .nowhere
  obtain ⟨value, rfl⟩ := decided.int _ denotes
  refine ⟨l, _, v, read, rfl, made, value, again ?_⟩
  intro invalid
  rw [invalid] at value
  cases value

end Grammar

end IdlFrontEnd
