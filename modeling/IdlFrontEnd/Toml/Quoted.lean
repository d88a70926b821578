import IdlFrontEnd.Text.Numeral

/-!
# Quoted texts of a settings file

A text stands between single or double quotes, one of them for a text on one line or three for a
text that may hold line breaks. Between double quotes a backslash opens an escape; between single
quotes every character stands for itself. A block of several lines leaves out a line break right
after its opening quotes, and up to two more quotes right before its closing ones belong to it. All
line breaks of a block are read as line feeds.
-/
namespace IdlFrontEnd.Toml

/-- No control character but the tab. -/
def isPlain (c : Char) : Bool := c = '\t' || (0x20 ≤ c.toNat && c.toNat ≠ 0x7F)

def isBlank (c : Char) : Bool := c = ' ' || c = '\t'

/-- What follows a line break. -/
def afterBreak? : List Char → Option (List Char)
  | '\n' :: cs => some cs
  | '\r' :: '\n' :: cs => some cs
  | _ => none

namespace Quoted

inductive Style where
  | literal | escaped
  deriving DecidableEq, Repr

def Style.quote : Style → Char
  | .literal => '\x27'
  | .escaped => '"'

/-- Whether a backslash before `c` keeps it from being read by itself. -/
private def Style.guards (style : Style) (c : Char) : Bool :=
  style = .escaped && (c = '\\' || c = '"')

private def keep (kept : List Char) (found : Option (List Char × List Char)) :
    Option (List Char × List Char) :=
  found.map fun (inside, rest) => (kept ++ inside, rest)

/-- The text of one line up to its closing quote, escapes as written, with what follows. -/
def line? (style : Style) : List Char → Option (List Char × List Char)
  | [] => none
  | '\\' :: c :: cs =>
    if style.guards c then keep ['\\', c] (line? style cs) else keep ['\\'] (line? style (c :: cs))
  | c :: cs =>
    if c = style.quote then some ([], cs)
    else if isPlain c then keep [c] (line? style cs)
    else none

/-- The text of a block up to its closing quotes, escapes as written, with what follows. -/
def block? (style : Style) : List Char → Option (List Char × List Char)
  | [] => none
  | '\r' :: '\n' :: cs => keep ['\n'] (block? style cs)
  | '\\' :: c :: cs =>
    if style.guards c then keep ['\\', c] (block? style cs)
    else keep ['\\'] (block? style (c :: cs))
  | c :: cs =>
    let quotes := (cs.takeWhile (· = style.quote)).length
    if c = style.quote ∧ 2 ≤ quotes then
      let more := min 2 (quotes - 2)
      some (List.replicate more c, cs.drop (2 + more))
    else if isPlain c ∨ c = '\n' then keep [c] (block? style cs)
    else none

/-- The escapes that have a letter of their own. -/
def letterEscapes : List (Char × Char) :=
  [('b', '\x08'), ('t', '\t'), ('n', '\n'), ('f', '\x0c'), ('r', '\r'), ('"', '"'), ('\\', '\\')]

def codePoint? (digits : List Char) : Option Char :=
  (Text.digits? 16 digits).bind fun n => if n.isValidChar then some (Char.ofNat n) else none

/-- What follows the blanks and line breaks after a backslash at the end of a line. -/
private def afterFold? (cs : List Char) : Option (List Char) :=
  (afterBreak? (cs.dropWhile isBlank)).map fun rest =>
    rest.dropWhile fun c => isBlank c || c = '\n'

/-- How many digits follow the letter of an escape by code point. -/
private def digitCount? : Char → Option Nat
  | 'u' => some 4
  | 'U' => some 8
  | _ => none

/-- The character of an escape, if it stands for one, with what follows it. -/
private def escape? : List Char → Option (Option Char × List Char)
  | [] => none
  | c :: cs =>
    match digitCount? c with
    | some n =>
      if n ≤ cs.length then (codePoint? (cs.take n)).map fun meant => (some meant, cs.drop n)
      else none
    | none =>
      match letterEscapes.lookup c with
      | some meant => some (some meant, cs)
      | none => (afterFold? (c :: cs)).map fun rest => (none, rest)

private theorem length_dropWhile_le (p : Char → Bool) (cs : List Char) :
    (cs.dropWhile p).length ≤ cs.length :=
  (List.dropWhile_sublist p).length_le

private theorem afterBreak?_length {cs rest : List Char} (h : afterBreak? cs = some rest) :
    rest.length ≤ cs.length := by
  unfold afterBreak? at h
  split at h
  · cases h; simp
  · cases h; simp; omega
  · cases h

private theorem afterFold?_length {cs rest : List Char} (h : afterFold? cs = some rest) :
    rest.length ≤ cs.length := by
  obtain ⟨_, hb, rfl⟩ := Option.map_eq_some_iff.1 h
  exact Nat.le_trans (length_dropWhile_le _ _)
    (Nat.le_trans (afterBreak?_length hb) (length_dropWhile_le _ _))

private theorem escape?_length {cs rest : List Char} {c? : Option Char}
    (h : escape? cs = some (c?, rest)) : rest.length ≤ cs.length := by
  unfold escape? at h
  split at h
  · cases h
  · split at h
    · split at h
      · obtain ⟨_, _, he⟩ := Option.map_eq_some_iff.1 h
        cases he
        simp
        omega
      · cases h
    · split at h
      · cases h
        simp
      · obtain ⟨_, hf, he⟩ := Option.map_eq_some_iff.1 h
        cases he
        exact afterFold?_length hf

/-- The text meant by a text with escapes. A backslash at the end of a line takes the line break
and the blanks and line breaks after it away. -/
def unescape? : List Char → Option (List Char)
  | [] => some []
  | '\\' :: cs =>
    match _h : escape? cs with
    | some (c?, rest) => (unescape? rest).map (c?.toList ++ ·)
    | none => none
  | c :: cs => (unescape? cs).map (c :: ·)
  termination_by cs => cs.length
  decreasing_by
  · have := escape?_length _h
    simp only [List.length_cons]
    omega
  · simp

def Style.meaning? : Style → List Char → Option (List Char)
  | .literal, cs => some cs
  | .escaped, cs => unescape? cs

private def read? (style : Style) (found : Option (List Char × List Char)) :
    Option (String × List Char) :=
  found.bind fun (inside, rest) =>
    (style.meaning? inside).map fun meant => (String.ofList meant, rest)

private def opening? : List Char → Option (Style × List Char)
  | '"' :: cs => some (.escaped, cs)
  | '\x27' :: cs => some (.literal, cs)
  | _ => none

/-- The text of one line that a text starts with. -/
def onLine? (cs : List Char) : Option (String × List Char) :=
  (opening? cs).bind fun (style, rest) => read? style (line? style rest)

/-- The quoted text of either form that a text starts with. -/
def ofText? (cs : List Char) : Option (String × List Char) :=
  (opening? cs).bind fun (style, rest) =>
    if rest.take 2 = [style.quote, style.quote] then
      let inside := rest.drop 2
      read? style (block? style ((afterBreak? inside).getD inside))
    else read? style (line? style rest)

end Quoted

end IdlFrontEnd.Toml
