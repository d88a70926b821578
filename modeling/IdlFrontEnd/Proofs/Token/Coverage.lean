import IdlFrontEnd.Proofs.Location
import IdlFrontEnd.Proofs.Token.Piece
import IdlFrontEnd.Token.Lexeme

/-!
# Scanning covers the text

What scanning gives is compared with the text by offsets of characters, counted from zero. Tokens
and gaps take turns from the first character on, and no character is left out or used twice. A gap
holds white space, complete comments and stray characters. The lexeme of a token has the points of
its two offsets and the comments of the gap before it, and there is one report for each stray
character, in order. Only a comment or string that is never closed ends the scan before the end of
the text; it is reported last.

The point of an offset is the true line and column wherever both are numbers of 32 bits. Where
arithmetic is checked there is no answer exactly if this fails at an offset that is reached.
-/
namespace IdlFrontEnd

/-- The point of an offset. Lines are counted by the line feeds before it and columns by the
characters after the last of these. -/
def Point.ofOffset (source : List Char) (offset : Nat) : Point :=
  .behind (source.take offset)

theorem Point.ofOffset_eq (source : List Char) (offset : Nat) :
    Point.ofOffset source offset = Point.afterAll ⟨1, 1⟩ (source.take offset) :=
  (Point.afterAll_start _).symm

/-- A piece of the source, from one offset up to another. -/
structure Cut where
  kind : PieceKind
  start : Nat
  stop : Nat
  deriving DecidableEq, Repr

namespace Cut

variable (file : String) (source : List Char) (cut : Cut)

def piece : Piece := ⟨cut.kind, source.extract cut.start cut.stop⟩

/-- The cut is not empty, lies in the source and is what a piece of its kind must be there. -/
structure Proper : Prop where
  nonempty : cut.start < cut.stop
  inside : cut.stop ≤ source.length
  piece : (cut.piece source).Proper (source.drop cut.stop)

def location : Location :=
  ⟨file, .ofOffset source cut.start, .ofOffset source cut.stop⟩

/-- What a cut adds to the comments before the next token: a line comment comes with a line feed. -/
def comment : String :=
  match cut.kind with
  | .lineComment => String.ofList (cut.piece source).text ++ "\n"
  | .blockComment => String.ofList (cut.piece source).text
  | _ => ""

def note? : Option Diagnostic :=
  match cut.kind with
  | .stray c => some (.atPlace (cut.location file source) (.strayCharacter c))
  | .openComment => some (.atPlace (cut.location file source) .openComment)
  | .openString => some (.atPlace (cut.location file source) .openString)
  | .blank | .lineComment | .blockComment | .token _ => none

def isStray : Bool :=
  match cut.kind with
  | .stray _ => true
  | _ => false

end Cut

/-- What may stand between tokens. -/
def PieceKind.isGap : PieceKind → Bool
  | .blank | .lineComment | .blockComment | .stray _ => true
  | .openComment | .openString | .token _ => false

/-- The cuts go from one offset to another without a hole, and there is no token among them. -/
inductive Gap (source : List Char) : Nat → List Cut → Nat → Prop
  | nil (n : Nat) : Gap source n [] n
  | cons {cut : Cut} {cuts : List Cut} {m : Nat} (kind : cut.kind.isGap = true)
      (proper : cut.Proper source) (rest : Gap source cut.stop cuts m) :
      Gap source cut.start (cut :: cuts) m

/-- A token in the source with the gap before it. -/
structure Spot where
  gap : List Cut
  token : Token
  start : Nat
  stop : Nat
  deriving DecidableEq, Repr

namespace Spot

def cut (s : Spot) : Cut := ⟨.token s.token, s.start, s.stop⟩

/-- The lexeme that belongs to a spot. -/
def lexeme (file : String) (source : List Char) (s : Spot) : Lexeme :=
  ⟨s.token, s.cut.location file source, String.join (s.gap.map (Cut.comment source))⟩

end Spot

/-- Tokens and gaps take turns from offset `n` on: a gap starts where the token before it stops, and
a token starts where its gap ends. The last offset is the end of the last token. -/
inductive Spots (source : List Char) : Nat → List Spot → Nat → Prop
  | nil (n : Nat) : Spots source n [] n
  | cons {n m : Nat} {s : Spot} {ss : List Spot} (gap : Gap source n s.gap s.start)
      (proper : s.cut.Proper source) (written : s.token.written = source.extract s.start s.stop)
      (rest : Spots source s.stop ss m) : Spots source n (s :: ss) m

/-- How a text is covered: the tokens with their gaps, the end of the last token, the gap after it
with its end, and what is not closed there. -/
structure Survey where
  spots : List Spot
  reached : Nat
  tail : List Cut
  ended : Nat
  unclosed : Option Cut

namespace Survey

/-- The cuts between tokens, in order. -/
def gaps (s : Survey) : List Cut := s.spots.flatMap Spot.gap ++ s.tail

/-- The offset at which scanning stops. -/
def stop (s : Survey) : Nat := (s.unclosed.map Cut.stop).getD s.ended

/-- The survey covers the source from offset `n` on and accounts for these lexemes and reports. -/
structure Covers (s : Survey) (file : String) (source : List Char) (n : Nat)
    (lexemes : List Lexeme) (notes : List Diagnostic) : Prop where
  spots : Spots source n s.spots s.reached
  tail : Gap source s.reached s.tail s.ended
  /-- Scanning stops early only at something that is not closed. -/
  whole : s.unclosed = none → s.ended = source.length
  unclosed : ∀ cut ∈ s.unclosed, cut.start = s.ended ∧ cut.Proper source ∧
    (cut.kind = .openComment ∨ cut.kind = .openString)
  lexemes : lexemes = s.spots.map (Spot.lexeme file source) ++
    [.eof file (.ofOffset source s.stop)]
  notes : notes = (s.gaps ++ s.unclosed.toList).filterMap (Cut.note? file source)

end Survey

/-! ## Gaps -/

theorem Gap.snoc {source : List Char} {n : Nat} {cuts : List Cut} {cut : Cut}
    (gap : Gap source n cuts cut.start) (kind : cut.kind.isGap = true)
    (proper : cut.Proper source) : Gap source n (cuts ++ [cut]) cut.stop := by
  generalize start : cut.start = m at gap
  induction gap with
  | nil m =>
    subst start
    exact .cons kind proper (.nil _)
  | cons kind' proper' rest ih => exact .cons kind' proper' (ih start)

theorem Gap.le {source : List Char} {n m : Nat} {cuts : List Cut} (gap : Gap source n cuts m) :
    n ≤ m := by
  induction gap with
  | nil => exact Nat.le_refl _
  | cons kind proper rest ih => exact Nat.le_trans (Nat.le_of_lt proper.nonempty) ih

/-- No token starts before the one in front of it stops. -/
theorem Spots.ordered {source : List Char} {n m : Nat} {ss : List Spot}
    (spots : Spots source n ss m) :
    (∀ s ∈ ss, n ≤ s.start) ∧ ss.Pairwise fun s t => s.stop ≤ t.start := by
  induction spots with
  | nil => exact ⟨by simp, .nil⟩
  | @cons n m s ss gap proper written rest ih =>
    obtain ⟨after, ordered⟩ := ih
    refine ⟨?_, .cons after ordered⟩
    have inside : s.start < s.stop := proper.nonempty
    have before := gap.le
    intro t member
    rcases List.mem_cons.1 member with rfl | member
    · exact before
    · have later := after t member
      omega

theorem Spots.inside {source : List Char} {n m : Nat} {ss : List Spot}
    (spots : Spots source n ss m) : ∀ s ∈ ss, s.start < s.stop ∧ s.stop ≤ source.length := by
  induction spots with
  | nil => simp
  | cons gap proper written rest ih =>
    intro s member
    rcases List.mem_cons.1 member with rfl | member
    · exact ⟨proper.nonempty, proper.inside⟩
    · exact ih s member

theorem Cut.Proper.written {source : List Char} {t : Token} {start stop : Nat}
    (proper : Cut.Proper source ⟨.token t, start, stop⟩) :
    t.written = source.extract start stop ∧ t ≠ .eof := by
  have piece := proper.piece
  generalize source.drop stop = rest at piece
  generalize whole : Cut.piece source ⟨.token t, start, stop⟩ = next at piece
  cases piece
  all_goals simp [Cut.piece] at whole
  next spelled =>
    obtain ⟨rfl, whole⟩ := whole
    exact ⟨by simpa using whole.symm, spelled.ne_eof⟩

theorem Spots.ne_eof {source : List Char} {n m : Nat} {ss : List Spot}
    (spots : Spots source n ss m) : ∀ s ∈ ss, s.token ≠ .eof := by
  induction spots with
  | nil => simp
  | cons gap proper written rest ih =>
    intro s member
    rcases List.mem_cons.1 member with rfl | member
    · exact proper.written.2
    · exact ih s member

theorem Gap.isGap {source : List Char} {n m : Nat} {cuts : List Cut} (gap : Gap source n cuts m) :
    ∀ cut ∈ cuts, cut.kind.isGap = true := by
  induction gap with
  | nil => simp
  | cons kind proper rest ih =>
    intro cut member
    rcases List.mem_cons.1 member with rfl | member
    · exact kind
    · exact ih cut member

theorem Spots.isGap {source : List Char} {n m : Nat} {ss : List Spot}
    (spots : Spots source n ss m) : ∀ cut ∈ ss.flatMap Spot.gap, cut.kind.isGap = true := by
  induction spots with
  | nil => simp
  | cons gap proper written rest ih =>
    intro cut member
    rw [List.flatMap_cons] at member
    rcases List.mem_append.1 member with member | member
    · exact gap.isGap cut member
    · exact ih cut member

/-- Between tokens exactly the stray characters are reported. -/
theorem length_notes {cuts : List Cut} (between : ∀ cut ∈ cuts, cut.kind.isGap = true)
    (file : String) (source : List Char) :
    (cuts.filterMap (Cut.note? file source)).length = cuts.countP Cut.isStray := by
  rw [List.length_filterMap_eq_countP]
  refine List.countP_congr fun cut member => ?_
  have kind := between cut member
  unfold Cut.note? Cut.isStray
  split <;> simp_all [PieceKind.isGap]

/-! ## One piece -/

/-- The cut is the next piece of the source, and `rest` comes after it. -/
structure Cut.Reads (source : List Char) (cut : Cut) (next : Piece) (rest : List Char) : Prop where
  piece : cut.piece source = next
  rest : source.drop cut.stop = rest
  inside : cut.stop ≤ source.length
  upTo : source.take cut.stop = source.take cut.start ++ next.text

theorem Cut.Reads.point {source rest : List Char} {cut : Cut} {next : Piece}
    (reads : cut.Reads source next rest) :
    Point.ofOffset source cut.stop = (Point.ofOffset source cut.start).afterAll next.text := by
  rw [Point.ofOffset_eq, Point.ofOffset_eq, reads.upTo, Point.afterAll_append]

theorem Cut.reads {source rest : List Char} {m : Nat} {next : Piece}
    (here : source.drop m = next.text ++ rest) (inside : m ≤ source.length) :
    Cut.Reads source ⟨next.kind, m, m + next.text.length⟩ next rest := by
  constructor
  · simp [Cut.piece, here]
  · rw [← List.drop_drop, here]
    simp
  · have total := congrArg List.length here
    simp only [List.length_drop, List.length_append] at total
    dsimp only
    omega
  · simp only [List.take_add, here, List.take_left]

theorem Cut.Reads.take_append {source rest : List Char} {cut : Cut} {next : Piece}
    (reads : cut.Reads source next rest) (pieces : List Piece) :
    source.take cut.stop ++ pieces.flatMap Piece.text =
      source.take cut.start ++ (next :: pieces).flatMap Piece.text := by
  rw [reads.upTo, List.flatMap_cons, List.append_assoc]

theorem Cut.Reads.proper {source rest : List Char} {cut : Cut} {next : Piece}
    (reads : cut.Reads source next rest) (some : next.text ≠ []) (proper : next.Proper rest) :
    cut.Proper source := by
  obtain ⟨rfl, rfl, inside, -⟩ := reads
  refine ⟨Nat.lt_of_not_ge fun none => some ?_, inside, proper⟩
  rw [Cut.piece, List.extract_eq_take_drop, Nat.sub_eq_zero_of_le none, List.take_zero]

/-- The first piece of what is left of the source is a cut. -/
theorem Cut.exists_next {source cs : List Char} {c : Char} {m : Nat}
    (here : source.drop m = c :: cs) (inside : m ≤ source.length) :
    ∃ stop, Cut.Proper source ⟨(Piece.first c cs).1.kind, m, stop⟩ ∧
      Cut.Reads source ⟨(Piece.first c cs).1.kind, m, stop⟩ (Piece.first c cs).1
        (Piece.first c cs).2 := by
  have reads := Cut.reads (here.trans (Piece.first_append c cs).symm) inside
  exact ⟨_, reads.proper (Piece.first_text_ne_nil c cs) (Piece.first_proper c cs), reads⟩

/-! ## The whole text -/

namespace Survey.Covers

variable {file : String} {source : List Char} {n : Nat} {lexemes : List Lexeme}
  {notes : List Diagnostic}

/-- The text ends after a gap. -/
theorem atEnd (file : String) {waiting : List Cut} {m : Nat} (gap : Gap source n waiting m)
    (ended : m = source.length) :
    Covers ⟨[], n, waiting, m, none⟩ file source n [.eof file (.ofOffset source m)]
      (waiting.filterMap (Cut.note? file source)) := by
  refine ⟨.nil n, gap, fun _ => ended, by simp, rfl, ?_⟩
  simp [gaps]

/-- Something that is not closed comes after a gap. -/
theorem atUnclosed (file : String) {waiting : List Cut} {cut : Cut} (gap : Gap source n waiting cut.start)
    (proper : cut.Proper source) (kind : cut.kind = .openComment ∨ cut.kind = .openString) :
    Covers ⟨[], n, waiting, cut.start, some cut⟩ file source n
      [.eof file (.ofOffset source cut.stop)]
      ((waiting ++ [cut]).filterMap (Cut.note? file source)) := by
  refine ⟨.nil n, gap, by simp, ?_, rfl, ?_⟩
  · intro other same
    cases same
    exact ⟨rfl, proper, kind⟩
  · simp [gaps]

/-- A token comes after a gap, and the rest is covered. -/
theorem cons {s : Survey} {spot : Spot} (gap : Gap source n spot.gap spot.start)
    (proper : spot.cut.Proper source)
    (written : spot.token.written = source.extract spot.start spot.stop)
    (rest : s.Covers file source spot.stop lexemes notes) :
    Covers { s with spots := spot :: s.spots } file source n
      (spot.lexeme file source :: lexemes)
      (spot.gap.filterMap (Cut.note? file source) ++ notes) := by
  refine ⟨.cons gap proper written rest.spots, rest.tail, rest.whole, rest.unclosed, ?_, ?_⟩
  · rw [rest.lexemes]
    rfl
  · rw [rest.notes]
    simp [gaps]

/-- Scanning stops within the source. -/
theorem stop_le {s : Survey} (covers : s.Covers file source n lexemes notes) :
    s.stop ≤ source.length := by
  cases same : s.unclosed with
  | none =>
    rw [stop, same]
    exact Nat.le_of_eq (covers.whole same)
  | some cut =>
    rw [stop, same]
    exact (covers.unclosed cut same).2.1.inside

/-- What is not closed is reported. -/
theorem length_unclosed {s : Survey} (covers : s.Covers file source n lexemes notes) :
    (s.unclosed.toList.filterMap (Cut.note? file source)).length = s.unclosed.toList.length := by
  cases same : s.unclosed with
  | none => rfl
  | some cut =>
    obtain ⟨-, -, kind⟩ := covers.unclosed cut same
    rcases kind with kind | kind <;> simp [Cut.note?, kind]

end Survey.Covers

namespace Lexeme

/-- The comments that wait for a token. -/
def waitingComments (source : List Char) (waiting : List Cut) : String :=
  String.join (waiting.map (Cut.comment source))

/-- The lexemes and reports from a point on are those of a survey, and so are the reports of the
cuts that wait. The pieces are what is left of the source up to where the survey stops. -/
def Covered (file : String) (source : List Char) (n : Nat) (waiting : List Cut) (m : Nat)
    (pieces : List Piece) : Prop :=
  ∃ s : Survey, s.Covers file source n
    (place file (.ofOffset source m) (waitingComments source waiting) pieces).1
    (waiting.filterMap (Cut.note? file source) ++
      (place file (.ofOffset source m) (waitingComments source waiting) pieces).2) ∧
    source.take s.stop = source.take m ++ pieces.flatMap Piece.text

variable {file : String} {source : List Char} {n m stop : Nat} {waiting : List Cut}

/-- A gap that ends with this cut waits for what comes after the cut. -/
theorem Covered.wait {kind : PieceKind} {text rest : List Char} {pieces : List Piece}
    (between : kind.isGap = true) (reads : Cut.Reads source ⟨kind, m, stop⟩ ⟨kind, text⟩ rest)
    (others : Covered file source n (waiting ++ [⟨kind, m, stop⟩]) stop pieces) :
    Covered file source n waiting m (⟨kind, text⟩ :: pieces) := by
  obtain ⟨s, covers, reached⟩ := others
  have point := reads.point
  have whole : source.extract m stop = text := congrArg Piece.text reads.piece
  refine ⟨s, ?_, reached.trans (reads.take_append pieces)⟩
  dsimp only at point
  rw [point] at covers
  cases kind with
  | blank =>
    simpa [place, waitingComments, List.filterMap_cons, Cut.comment, Cut.note?] using covers
  | lineComment =>
    simpa [place, waitingComments, List.filterMap_cons, Cut.comment, Cut.note?, reads.piece,
      String.append_assoc] using covers
  | blockComment =>
    simpa [place, waitingComments, List.filterMap_cons, Cut.comment, Cut.note?, reads.piece]
      using covers
  | stray c =>
    simpa [place, waitingComments, List.filterMap_cons, Cut.comment, Cut.note?, Cut.location,
      point] using covers
  | openComment => cases between
  | openString => cases between
  | token t => cases between

theorem Covered.close {kind : PieceKind} {text rest : List Char}
    (gap : Gap source n waiting m) (proper : Cut.Proper source ⟨kind, m, stop⟩)
    (reads : Cut.Reads source ⟨kind, m, stop⟩ ⟨kind, text⟩ rest)
    (unclosed : kind = .openComment ∨ kind = .openString) :
    Covered file source n waiting m [⟨kind, text⟩] := by
  have covers := Survey.Covers.atUnclosed file gap proper unclosed
  have point := reads.point
  dsimp only at point covers
  refine ⟨⟨[], n, waiting, m, some ⟨kind, m, stop⟩⟩, ?_, ?_⟩
  · rcases unclosed with rfl | rfl
    · simpa [place, List.filterMap_cons, Cut.note?, Cut.location, point] using covers
    · simpa [place, List.filterMap_cons, Cut.note?, Cut.location, point] using covers
  · simpa [Survey.stop] using reads.take_append []

theorem Covered.token {t : Token} {text rest : List Char} {pieces : List Piece}
    (gap : Gap source n waiting m) (proper : Cut.Proper source ⟨.token t, m, stop⟩)
    (reads : Cut.Reads source ⟨.token t, m, stop⟩ ⟨.token t, text⟩ rest)
    (others : Covered file source stop [] stop pieces) :
    Covered file source n waiting m (⟨.token t, text⟩ :: pieces) := by
  obtain ⟨s, covers, reached⟩ := others
  have point := reads.point
  dsimp only at point
  have next := @Survey.Covers.cons file source n _ _ s ⟨waiting, t, m, stop⟩ gap proper
    proper.written.1 covers
  rw [point] at next
  refine ⟨{ s with spots := ⟨waiting, t, m, stop⟩ :: s.spots }, ?_,
    reached.trans (reads.take_append pieces)⟩
  simpa [place, Spot.lexeme, Spot.cut, Cut.location, waitingComments, point] using next

theorem covered_cons {kind : PieceKind} {text rest : List Char} {pieces : List Piece}
    (gap : Gap source n waiting m) (proper : Cut.Proper source ⟨kind, m, stop⟩)
    (reads : Cut.Reads source ⟨kind, m, stop⟩ ⟨kind, text⟩ rest)
    (last : kind = .openComment ∨ kind = .openString → pieces = [])
    (others : kind ≠ .openString → ∀ n waiting, Gap source n waiting stop →
      Covered file source n waiting stop pieces) :
    Covered file source n waiting m (⟨kind, text⟩ :: pieces) := by
  cases kind with
  | blank => exact .wait rfl reads (others (by simp) n _ (gap.snoc rfl proper))
  | lineComment => exact .wait rfl reads (others (by simp) n _ (gap.snoc rfl proper))
  | blockComment => exact .wait rfl reads (others (by simp) n _ (gap.snoc rfl proper))
  | stray c => exact .wait rfl reads (others (by simp) n _ (gap.snoc rfl proper))
  | openComment =>
    cases last (.inl rfl)
    exact .close gap proper reads (.inl rfl)
  | openString =>
    cases last (.inr rfl)
    exact .close gap proper reads (.inr rfl)
  | token t => exact .token gap proper reads (others (by simp) stop [] (.nil stop))

/-- Laying out the rest of a text from offset `m` on, where the cuts since the last token wait for
the next one. -/
theorem split_covered (cs : List Char) {n m : Nat} {waiting : List Cut}
    (here : source.drop m = cs) (inside : m ≤ source.length) (gap : Gap source n waiting m) :
    Covered file source n waiting m (Piece.split cs) := by
  match cs, here with
  | [], here =>
    have ended : m = source.length := by
      have none := congrArg List.length here
      simp at none
      omega
    have covers := Survey.Covers.atEnd file gap ended
    refine ⟨⟨[], n, waiting, m, none⟩, ?_⟩
    simpa [Piece.split, place, Survey.stop] using covers
  | c :: cs, here =>
    obtain ⟨stop, proper, reads⟩ := Cut.exists_next here inside
    rw [Piece.split]
    split
    next last => exact covered_cons gap proper reads (fun _ => rfl) fun other => absurd last other
    next further =>
      refine covered_cons gap proper reads ?_ fun _ n waiting gap =>
        split_covered (Piece.first c cs).2 reads.rest reads.inside gap
      rintro (unclosed | unclosed)
      · rw [(Piece.first_proper c cs).rest_eq_nil unclosed, Piece.split]
      · exact absurd unclosed further
termination_by cs.length
decreasing_by exact Piece.first_rest_length c cs

/-- Where arithmetic is checked, there is an answer as long as counting never starts over. -/
theorem ofTextChecked?_eq (file text : String) :
    ofTextChecked? file text =
      if Point.startsOver ⟨1, 1⟩ ((Piece.split text.toList).flatMap Piece.text) then none
      else some (ofText file text) := rfl

/-- Counting up to an offset never starts over exactly if no line or column is too large there or
before. -/
theorem startsOver_take (source : List Char) {n : Nat} (inside : n ≤ source.length) :
    Point.startsOver ⟨1, 1⟩ (source.take n) = false ↔ ∀ m ≤ n, Fits (source.take m) := by
  rw [Point.startsOver_start, List.length_take, Nat.min_eq_left inside]
  refine forall_congr' fun m => forall_congr' fun before => ?_
  rw [List.take_take, Nat.min_eq_left before]

/-- The lexemes of a text are those of its tokens, in order, closed by the end of the file. Tokens
and gaps cover the text, from its first character to its end unless something is not closed, and the
reports are one for each stray character and one for what is not closed. The points are the true
lines and columns where these are numbers of 32 bits; where arithmetic is checked, there is this
answer exactly if they are so at every offset that is reached, and otherwise none. -/
theorem ofText_covered (file text : String) :
    ∃ s : Survey, s.Covers file text.toList 0 (ofText file text).1 (ofText file text).2 ∧
      (∀ spot ∈ s.spots, spot.token ≠ .eof) ∧
      (∀ spot ∈ s.spots, spot.start < spot.stop ∧ spot.stop ≤ text.toList.length) ∧
      (s.spots.Pairwise fun first second => first.stop ≤ second.start) ∧
      (ofText file text).2.length = s.gaps.countP Cut.isStray + s.unclosed.toList.length ∧
      (∀ offset, (Point.ofOffset text.toList offset).Exact (text.toList.take offset) ↔
        Fits (text.toList.take offset)) ∧
      (ofTextChecked? file text = some (ofText file text) ↔
        ∀ offset ≤ s.stop, Fits (text.toList.take offset)) ∧
      (ofTextChecked? file text = none ↔
        ∃ offset ≤ s.stop, ¬ Fits (text.toList.take offset)) := by
  have covered : Covered file text.toList 0 [] 0 (Piece.split text.toList) :=
    split_covered text.toList rfl (Nat.zero_le _) (.nil 0)
  obtain ⟨s, found, reached⟩ := covered
  have start : Point.ofOffset text.toList 0 = ⟨1, 1⟩ := rfl
  have covers : s.Covers file text.toList 0 (ofText file text).1 (ofText file text).2 := by
    rw [start] at found
    exact found
  refine ⟨s, covers, covers.spots.ne_eof, covers.spots.inside, covers.spots.ordered.2, ?_,
    fun _ => Point.behind_exact, ?_⟩
  · have between : ∀ cut ∈ s.gaps, cut.kind.isGap = true := by
      intro cut member
      rcases List.mem_append.1 member with member | member
      · exact covers.spots.isGap cut member
      · exact covers.tail.isGap cut member
    rw [covers.notes, List.filterMap_append, List.length_append, length_notes between,
      covers.length_unclosed]
  · have counted := startsOver_take text.toList covers.stop_le
    rw [List.take_zero, List.nil_append] at reached
    rw [ofTextChecked?_eq, ← reached]
    cases stopped : Point.startsOver ⟨1, 1⟩ (text.toList.take s.stop) with
    | false =>
      have fits := counted.1 stopped
      exact ⟨iff_of_true rfl fits,
        iff_of_false nofun fun ⟨offset, inside, unfit⟩ => unfit (fits offset inside)⟩
    | true =>
      have unfit : ¬ ∀ offset ≤ s.stop, Fits (text.toList.take offset) := by
        rw [← counted, stopped]
        exact nofun
      exact ⟨iff_of_false nofun unfit, iff_of_true rfl (by simpa using unfit)⟩

/-- With fewer characters than there are numbers of 32 bits no line or column is too large. -/
theorem ofTextChecked?_of_length {text : String} (file : String)
    (short : text.toList.length + 1 < UInt32.size) :
    ofTextChecked? file text = some (ofText file text) := by
  have covered : Covered file text.toList 0 [] 0 (Piece.split text.toList) :=
    split_covered text.toList rfl (Nat.zero_le _) (.nil 0)
  obtain ⟨s, covers, reached⟩ := covered
  have counted := (startsOver_take text.toList covers.stop_le).2 fun offset inside =>
    .of_length (by rw [List.length_take]; omega)
  rw [List.take_zero, List.nil_append] at reached
  rw [ofTextChecked?_eq, ← reached, counted]
  rfl

end Lexeme

end IdlFrontEnd
