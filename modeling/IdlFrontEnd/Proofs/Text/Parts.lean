import IdlFrontEnd.Text.Blank
import IdlFrontEnd.Text.Lines

/-!
# Parts of a text

A text is cut at dots into terms and at blanks into words. No part has a character in it at which
the text is cut, and parts that have none are found again where they were put together. Around the
words of a text, and around a text that is trimmed, there is nothing but white space.
-/
namespace IdlFrontEnd.Text

theorem apart_of_mem_splitOnP {α : Type} {p : α → Bool} {xs part : List α} {x : α}
    (cut : part ∈ xs.splitOnP p) (member : x ∈ part) : p x = false := by
  induction xs generalizing part with
  | nil =>
    rw [List.splitOnP_nil, List.mem_singleton] at cut
    rw [cut] at member
    cases member
  | cons y ys ih =>
    rw [List.splitOnP_cons_eq_if_modifyHead] at cut
    split at cut
    · rcases List.mem_cons.1 cut with rfl | later
      · cases member
      · exact ih later member
    next other =>
      -- the first part goes on with one character more
      obtain ⟨first, others, parts⟩ := List.exists_cons_of_ne_nil (List.splitOnP_ne_nil p ys)
      rw [parts] at ih cut
      rcases List.mem_cons.1 cut with rfl | later
      · rcases List.mem_cons.1 member with rfl | inside
        · simpa using other
        · exact ih List.mem_cons_self inside
      · exact ih (List.mem_cons_of_mem first later) member

/-- Every other character is in some part. -/
theorem exists_mem_splitOnP {α : Type} {p : α → Bool} {xs : List α} {x : α} (member : x ∈ xs)
    (kept : p x = false) : ∃ part ∈ xs.splitOnP p, x ∈ part := by
  induction xs with
  | nil => cases member
  | cons y ys ih =>
    rw [List.splitOnP_cons_eq_if_modifyHead]
    split
    next cut =>
      have later : x ∈ ys := by
        rcases List.mem_cons.1 member with rfl | later
        · rw [cut] at kept
          cases kept
        · exact later
      obtain ⟨part, inside, own⟩ := ih later
      exact ⟨part, List.mem_cons_of_mem [] inside, own⟩
    · obtain ⟨first, others, parts⟩ := List.exists_cons_of_ne_nil (List.splitOnP_ne_nil p ys)
      rw [parts] at ih ⊢
      rcases List.mem_cons.1 member with rfl | later
      · exact ⟨x :: first, List.mem_cons_self, List.mem_cons_self⟩
      · obtain ⟨part, inside, own⟩ := ih later
        rcases List.mem_cons.1 inside with rfl | inside
        · exact ⟨y :: part, List.mem_cons_self, List.mem_cons_of_mem y own⟩
        · exact ⟨part, List.mem_cons_of_mem _ inside, own⟩

/-! ## Terms -/

theorem dot_not_mem_of_mem_dotted {text term : String} (member : term ∈ dotted text) :
    '.' ∉ term.toList := by
  obtain ⟨part, cut, rfl⟩ := List.mem_map.1 member
  intro dot
  rw [String.toList_ofList] at dot
  simpa using apart_of_mem_splitOnP cut dot

theorem exists_mem_dotted {text : String} {c : Char} (member : c ∈ text.toList) (other : c ≠ '.') :
    ∃ term ∈ dotted text, c ∈ term.toList := by
  obtain ⟨part, cut, inside⟩ :=
    exists_mem_splitOnP (p := (· == '.')) member (by simpa using other)
  exact ⟨String.ofList part, List.mem_map_of_mem cut, by simpa using inside⟩

theorem lastTerm_mem (text : String) : lastTerm text ∈ dotted text := by
  have some : dotted text ≠ [] := by simp [dotted, List.splitOn_ne_nil]
  rw [lastTerm, List.getLast?_eq_some_getLast some, Option.getD_some]
  exact List.getLast_mem some

theorem lastTerm_of_dotless {text : String} (dotless : '.' ∉ text.toList) :
    lastTerm text = text := by
  rw [lastTerm, dotted, List.splitOn_eq_singleton dotless]
  simp

theorem lastTerm_append {before term : String} (dotless : '.' ∉ term.toList) :
    lastTerm (before ++ "." ++ term) = term := by
  have chars : (before ++ "." ++ term).toList = before.toList ++ '.' :: term.toList := by simp
  rw [lastTerm, dotted, chars, List.splitOn_append_cons_self, List.splitOn_eq_singleton dotless]
  simp

/-- Terms without dots are found again between the dots. -/
theorem dotted_joinDots_of_dotless {terms : List String} (some : terms ≠ [])
    (dotless : ∀ term ∈ terms, '.' ∉ term.toList) : dotted (joinDots terms) = terms := by
  have plain : ∀ cs ∈ terms.map String.toList, '.' ∉ cs := by
    intro cs member
    obtain ⟨term, inside, rfl⟩ := List.mem_map.1 member
    exact dotless term inside
  have again := List.splitOn_intercalate '.' plain (by simpa using some)
  have whole : (joinDots terms).toList = ['.'].intercalate (terms.map String.toList) := by
    rw [joinDots, String.toList_intercalate]
    rfl
  rw [dotted, whole, again, List.map_map]
  simp [Function.comp_def]

/-! ## Words -/

/-- Nothing but white space. -/
def IsBlankRun (cs : List Char) : Prop := ∀ c ∈ cs, isBlank c = true

/-- There is something, and no blank in it. -/
structure IsSolid (cs : List Char) : Prop where
  some : cs ≠ []
  dense : ∀ c ∈ cs, isBlank c = false

theorem isSolid_of_mem_words {cs word : List Char} (member : word ∈ words cs) : IsSolid word := by
  obtain ⟨cut, some⟩ := List.mem_filter.1 member
  exact ⟨by simpa using some, fun c inside => apart_of_mem_splitOnP cut inside⟩

theorem words_blank_append {before : List Char} (blank : IsBlankRun before) (cs : List Char) :
    words (before ++ cs) = words cs := by
  induction before with
  | nil => rfl
  | cons c before ih =>
    obtain ⟨own, others⟩ := List.forall_mem_cons.1 blank
    rw [← ih others, List.cons_append]
    unfold words
    rw [List.splitOnP_cons_eq_if_modifyHead, if_pos own, List.filter_cons_of_neg (by simp)]

theorem words_of_isBlankRun {cs : List Char} (blank : IsBlankRun cs) : words cs = [] := by
  have whole := words_blank_append blank []
  rw [List.append_nil] at whole
  rw [whole]
  simp [words]

/-- A word ends where white space begins. -/
theorem words_solid_append {word rest : List Char} (solid : IsSolid word)
    (apart : ∀ c ∈ rest.head?, isBlank c = true) : words (word ++ rest) = word :: words rest := by
  cases rest with
  | nil =>
    have none : words [] = [] := words_of_isBlankRun (by simp [IsBlankRun])
    rw [List.append_nil, none]
    unfold words
    rw [List.splitOnP_eq_singleton solid.dense]
    simp [solid.some]
  | cons c rest =>
    have blank : isBlank c = true := apart c rfl
    rw [← List.singleton_append, words_blank_append (by simpa [IsBlankRun] using blank) rest]
    unfold words
    rw [List.singleton_append, List.splitOnP_append_cons_of_forall_mem solid.dense c blank,
      List.filter_cons_of_pos (by simpa using solid.some)]

theorem words_pair {first second : List Char} {c : Char} (blank : isBlank c = true)
    (solid : IsSolid first) (solid' : IsSolid second) :
    words (first ++ c :: second) = [first, second] := by
  have gap : IsBlankRun [c] := by simpa [IsBlankRun] using blank
  have last : words (second ++ []) = [second] := by
    rw [words_solid_append solid' (by simp), words_of_isBlankRun (by simp [IsBlankRun])]
  rw [List.append_nil] at last
  rw [words_solid_append solid (by simpa using blank)]
  exact congrArg (List.cons first) ((words_blank_append gap second).trans last)

/-- A text is white space, or a word with white space before it and the rest behind it. -/
theorem blank_or_word (cs : List Char) :
    IsBlankRun cs ∨ ∃ before word rest, cs = before ++ word ++ rest ∧ IsBlankRun before ∧
      IsSolid word ∧ ∀ c ∈ rest.head?, isBlank c = true := by
  have before := List.takeWhile_append_dropWhile (p := isBlank) (l := cs)
  have blank : IsBlankRun (cs.takeWhile isBlank) := List.all_eq_true.1 List.all_takeWhile
  generalize cs.takeWhile isBlank = front at before blank
  have first := List.head?_dropWhile_not isBlank cs
  cases left : cs.dropWhile isBlank with
  | nil =>
    rw [left, List.append_nil] at before
    exact .inl (before ▸ blank)
  | cons c others =>
    have own : isBlank c = false := by simpa [left] using first
    have cut := List.takeWhile_append_dropWhile (p := (!isBlank ·)) (l := c :: others)
    have stopped := List.head?_dropWhile_not (!isBlank ·) (c :: others)
    refine .inr ⟨front, (c :: others).takeWhile (!isBlank ·), (c :: others).dropWhile (!isBlank ·),
      ?_, blank, ⟨by simp [own], ?_⟩, ?_⟩
    · rw [List.append_assoc, cut, ← left, before]
    · intro d member
      simpa using List.all_eq_true.1 List.all_takeWhile d member
    · intro d member
      rw [Option.mem_def.1 member] at stopped
      simpa using stopped

theorem isBlankRun_of_words_nil {cs : List Char} (none : words cs = []) : IsBlankRun cs := by
  rcases blank_or_word cs with blank | ⟨before, word, rest, rfl, blank, solid, apart⟩
  · exact blank
  · rw [List.append_assoc, words_blank_append blank, words_solid_append solid apart] at none
    cases none

/-- The first word of a text, and what is left for the other words. -/
theorem exists_of_words_cons {cs word : List Char} {others : List (List Char)}
    (cut : words cs = word :: others) :
    ∃ before rest, cs = before ++ word ++ rest ∧ IsBlankRun before ∧ IsSolid word ∧
      (∀ c ∈ rest.head?, isBlank c = true) ∧ words rest = others := by
  rcases blank_or_word cs with blank | ⟨before, first, rest, rfl, blank, solid, apart⟩
  · rw [words_of_isBlankRun blank] at cut
    cases cut
  · rw [List.append_assoc, words_blank_append blank, words_solid_append solid apart] at cut
    obtain ⟨rfl, same⟩ := List.cons.inj cut
    exact ⟨before, rest, rfl, blank, solid, apart, same⟩

/-! ## Trimming -/

theorem dropTrailing_append {cs : List Char} (p : Char → Bool) :
    ∃ after, cs = dropTrailing p cs ++ after ∧ ∀ c ∈ after, p c = true := by
  have whole := List.takeWhile_append_dropWhile (p := p) (l := cs.reverse)
  refine ⟨(cs.reverse.takeWhile p).reverse, ?_, ?_⟩
  · rw [dropTrailing, ← List.reverse_append, whole, List.reverse_reverse]
  · intro c member
    exact List.all_eq_true.1 List.all_takeWhile c (List.mem_reverse.1 member)

/-- Only white space is lost by trimming. -/
theorem exists_trim (cs : List Char) :
    ∃ before after, cs = before ++ trim cs ++ after ∧ IsBlankRun before ∧ IsBlankRun after := by
  have front := List.takeWhile_append_dropWhile (p := isBlank) (l := cs)
  obtain ⟨after, whole, blank⟩ := @dropTrailing_append (cs.dropWhile isBlank) isBlank
  refine ⟨cs.takeWhile isBlank, after, ?_, List.all_eq_true.1 List.all_takeWhile, blank⟩
  rw [List.append_assoc, trim, ← whole, front]

/-- A text without blanks at its ends is left over when white space around it is trimmed. -/
theorem trim_surrounded {before after cs : List Char} {c d : Char} (blank : IsBlankRun before)
    (blank' : IsBlankRun after) (first : isBlank c = false) (last : isBlank d = false) :
    trim (before ++ (c :: cs ++ [d]) ++ after) = c :: cs ++ [d] := by
  have front : (before ++ (c :: cs ++ [d]) ++ after).dropWhile isBlank =
      c :: cs ++ [d] ++ after := by
    rw [List.append_assoc, List.dropWhile_append_of_pos blank, List.cons_append, List.cons_append,
      List.dropWhile_cons_of_neg (by simp [first])]
  have back : ∀ e ∈ after.reverse, isBlank e = true := fun e member =>
    blank' e (List.mem_reverse.1 member)
  unfold trim dropTrailing
  rw [front, List.reverse_append, List.dropWhile_append_of_pos back, List.reverse_append,
    List.reverse_singleton, List.singleton_append, List.dropWhile_cons_of_neg (by simp [last]),
    List.reverse_cons, List.reverse_reverse]

/-- Nothing is trimmed where there is no blank at either end. -/
theorem trim_of_ends {cs : List Char} {c d : Char} (first : isBlank c = false)
    (last : isBlank d = false) : trim (c :: cs ++ [d]) = c :: cs ++ [d] := by
  have none : IsBlankRun [] := by simp [IsBlankRun]
  simpa using @trim_surrounded [] [] cs c d none none first last

end IdlFrontEnd.Text
