import IdlFrontEnd.Text.Layout

/-!
# Written text and laid out text

A layout takes characters one by one, which comes to the same as taking whole lines: the first
character of a line decides about the spaces in front of it, and all that goes on from one character
to the next is whether a line begins. So a text may be cut anywhere, also inside a line feed's line
and into empty pieces. What a whole run of edits leaves is told by the characters alone, each with the
level in force when it was written: cut at the line feeds, every line that is not blank stands behind
two spaces for each level of its first character.
-/
namespace IdlFrontEnd.Layout

/-! ## Line by line -/

/-- The lines of a text with their line feeds; the last line may lack its own. -/
def lineSegments : List Char → List (List Char)
  | [] => []
  | c :: cs =>
    if c = '\n' then [c] :: lineSegments cs
    else
      match lineSegments cs with
      | [] => [[c]]
      | line :: lines => (c :: line) :: lines

/-- Adds a part of a line: behind the margin, if the line begins here and is not blank. -/
def putSegment (l : Layout) (line : List Char) : Layout :=
  let start := if l.atLineStart && line ≠ ['\n'] then l.text ++ l.margin else l.text
  { l with text := start ++ String.ofList line, atLineStart := line.getLast? = some '\n' }

theorem put_feed (l : Layout) : l.put '\n' = l.putSegment ['\n'] := by
  have text : l.text.push '\n' = l.text ++ String.ofList ['\n'] := by simp [← String.toList_inj]
  simp [put, putSegment, text]

/-- Inside a line it does not matter where it is cut. -/
theorem putSegment_put {c : Char} (inside : c ≠ '\n') (l : Layout) (line : List Char) :
    (l.put c).putSegment line = l.putSegment (c :: line) := by
  have last : (c :: line).getLast? = some '\n' ↔ line.getLast? = some '\n' := by
    cases line with
    | nil => simpa using inside
    | cons d line => rw [List.getLast?_cons_cons]
  have text (start : String) :
      start.push c ++ String.ofList line = start ++ String.ofList (c :: line) := by
    simp [← String.toList_inj]
  unfold putSegment put
  simp [inside, last, text]

theorem write_eq_segments (l : Layout) (s : String) :
    l.write s = (lineSegments s.toList).foldl putSegment l := by
  unfold write
  generalize s.toList = cs
  induction cs generalizing l with
  | nil => rfl
  | cons c cs ih =>
    rw [List.foldl_cons, ih, lineSegments]
    split
    next feed => rw [feed, put_feed, List.foldl_cons]
    next inside =>
      cases lineSegments cs with
      | nil =>
        have alone : l.put c = l.putSegment [c] := by
          rw [← putSegment_put inside]
          simp [putSegment, put, inside]
        rw [alone]
        rfl
      | cons line lines =>
        dsimp only
        rw [List.foldl_cons, List.foldl_cons, putSegment_put inside]

theorem write_append (l : Layout) (a b : String) : l.write (a ++ b) = (l.write a).write b := by
  unfold write
  rw [String.toList_append, List.foldl_append]

/-! ## Whole runs -/

inductive Edit where
  | write (s : String) | indent | dedent

def edit (l : Layout) : Edit → Layout
  | .write s => l.write s
  | .indent => l.indent
  | .dedent => l.dedent

/-- The characters of all writes, each with the level in force when it is written. -/
def stamped (depth : Nat) : List Edit → List (Char × Nat)
  | [] => []
  | .write s :: edits => s.toList.map (·, depth) ++ stamped depth edits
  | .indent :: edits => stamped (depth + 1) edits
  | .dedent :: edits => stamped (depth - 1) edits

/-- The text of all writes, with nothing around it. -/
def written : List Edit → List Char
  | [] => []
  | .write s :: edits => s.toList ++ written edits
  | .indent :: edits | .dedent :: edits => written edits

theorem stamped_chars (depth : Nat) (edits : List Edit) :
    (stamped depth edits).map Prod.fst = written edits := by
  induction edits generalizing depth with
  | nil => rfl
  | cons e edits ih =>
    cases e with
    | write s => simp [stamped, written, ih, Function.comp_def]
    | indent => exact ih (depth + 1)
    | dedent => exact ih (depth - 1)

/-- A line without its line feed, behind two spaces for each level in force at its first character. -/
def laidOut : List (Char × Nat) → List Char
  | [] => []
  | (c, depth) :: line => List.replicate (2 * depth) ' ' ++ c :: line.map Prod.fst

/-- What is shown for the characters if a line begins with them, or not. -/
def shown (start : Bool) : List (Char × Nat) → List Char
  | [] => []
  | (c, depth) :: cs =>
    (if start && c ≠ '\n' then List.replicate (2 * depth) ' ' else []) ++
      c :: shown (c = '\n') cs

theorem put_text (l : Layout) (c : Char) (rest : List (Char × Nat)) :
    (l.put c).text.toList ++ shown (l.put c).atLineStart rest =
      l.text.toList ++ shown l.atLineStart ((c, l.depth) :: rest) := by
  rw [shown]
  unfold put margin
  dsimp only
  split <;> simp

theorem write_text (l : Layout) (s : String) (rest : List (Char × Nat)) :
    (l.write s).text.toList ++ shown (l.write s).atLineStart rest =
      l.text.toList ++ shown l.atLineStart (s.toList.map (·, l.depth) ++ rest) := by
  unfold write
  generalize s.toList = cs
  induction cs generalizing l with
  | nil => rfl
  | cons c cs ih =>
    have depth : (l.put c).depth = l.depth := rfl
    rw [List.foldl_cons, ih, depth, put_text, List.map_cons, List.cons_append]

theorem write_depth (l : Layout) (s : String) : (l.write s).depth = l.depth := by
  unfold write
  generalize s.toList = cs
  induction cs generalizing l with
  | nil => rfl
  | cons c cs ih => exact ih (l.put c)

theorem edits_text (l : Layout) (edits : List Edit) :
    (edits.foldl edit l).text.toList =
      l.text.toList ++ shown l.atLineStart (stamped l.depth edits) := by
  induction edits generalizing l with
  | nil => simp [stamped, shown]
  | cons e edits ih =>
    rw [List.foldl_cons, ih]
    cases e with
    | write s =>
      unfold edit
      rw [write_depth, write_text]
      rfl
    | indent => rfl
    | dedent => rfl

/-- Line by line: only the first line depends on whether it begins here. -/
theorem shown_lines (cs : List (Char × Nat)) :
    ∃ first others, cs.splitOnP (·.1 = '\n') = first :: others ∧
      shown false cs = ['\n'].intercalate (first.map Prod.fst :: others.map laidOut) ∧
      shown true cs = ['\n'].intercalate (laidOut first :: others.map laidOut) := by
  induction cs with
  | nil => exact ⟨[], [], List.splitOnP_nil, rfl, rfl⟩
  | cons head cs ih =>
    obtain ⟨c, depth⟩ := head
    obtain ⟨first, others, lines, inside, start⟩ := ih
    rw [List.splitOnP_cons_eq_if_modifyHead, lines]
    by_cases feed : c = '\n'
    · refine ⟨[], first :: others, by simp [feed], ?_, ?_⟩
      · simp [shown, feed, start, List.intercalate_cons_cons]
      · simp [shown, feed, start, laidOut, List.intercalate_cons_cons]
    · refine ⟨(c, depth) :: first, others, by simp [feed], ?_, ?_⟩
      · simp [shown, feed, inside, List.intercalate_cons_cons_left]
      · have margin (before line : List Char) (lines : List (List Char)) :
            before ++ ['\n'].intercalate (line :: lines) =
              ['\n'].intercalate ((before ++ line) :: lines) := by
          cases lines with
          | nil => simp
          | cons next lines => simp [List.intercalate_cons_cons]
        simp [shown, feed, inside, laidOut, ← margin, List.intercalate_cons_cons_left]

/-- A text may be written in parts, and writing it is writing its lines one after the other. After any
edits on an empty layout its text is what was written, line for line behind two spaces for each level
in force where the line begins, blank lines left blank. -/
theorem layout_of_edits :
    (∀ (l : Layout) (a b : String), (l.write a).write b = l.write (a ++ b)) ∧
      (∀ (l : Layout) (s : String), l.write s = (lineSegments s.toList).foldl putSegment l) ∧
      ∀ edits : List Edit,
        (stamped 0 edits).map Prod.fst = written edits ∧
          (edits.foldl edit empty).text.toList =
            ['\n'].intercalate (((stamped 0 edits).splitOnP (·.1 = '\n')).map laidOut) := by
  refine ⟨fun l a b => (write_append l a b).symm, write_eq_segments, ?_⟩
  intro edits
  refine ⟨stamped_chars 0 edits, ?_⟩
  obtain ⟨first, others, lines, -, start⟩ := shown_lines (stamped 0 edits)
  calc (edits.foldl edit empty).text.toList
      = shown true (stamped 0 edits) := edits_text empty edits
    _ = ['\n'].intercalate (laidOut first :: others.map laidOut) := start
    _ = _ := by rw [lines, List.map_cons]

end IdlFrontEnd.Layout
