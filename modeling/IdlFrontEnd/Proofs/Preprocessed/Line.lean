import IdlFrontEnd.Proofs.Preprocessed

/-!
# The format of a preprocessed line

A line is written for a record if, apart from white space around it, it is made of the kind of the
record, white space, the terms of its package and its name with dots between them, and a semicolon,
perhaps with white space in front. In the documented format every term has something in it, and no
semicolon. Reading asks for less: only the last term must not be empty, and a semicolon may stand in
any of them. Exactly the lines that are written so are read, each as the record it is written for.
-/
namespace IdlFrontEnd

/-- The terms of the canonical name, the last one for the type itself. -/
def TypeRecord.terms (r : TypeRecord) : List String := r.package ++ [r.name]

namespace Text

/-- Neither white space nor a dot. -/
def IsTerm (term : String) : Prop := ∀ c ∈ term.toList, isBlank c = false ∧ c ≠ '.'

theorem IsTerm.dotless {term : String} (plain : IsTerm term) : '.' ∉ term.toList :=
  fun member => (plain '.' member).2 rfl

theorem isSolid_joinDots {terms : List String} {term : String} (member : term ∈ terms)
    (named : term ≠ "") (each : ∀ term ∈ terms, IsTerm term) :
    IsSolid (joinDots terms).toList := by
  have some : terms ≠ [] := List.ne_nil_of_mem member
  have again := dotted_joinDots_of_dotless some fun term inside => (each term inside).dotless
  constructor
  · intro empty
    rw [String.toList_eq_nil_iff.1 empty] at again
    have alone : dotted "" = [""] := by simp [dotted]
    rw [← again, alone, List.mem_singleton] at member
    exact named member
  · intro c inside
    by_cases dot : c = '.'
    · rw [dot]
      decide
    · obtain ⟨part, within, own⟩ := exists_mem_dotted inside dot
      rw [again] at within
      exact (each part within c own).1

theorem mem_joinDots {terms : List String} {term : String} (member : term ∈ terms) {c : Char}
    (inside : c ∈ term.toList) : c ∈ (joinDots terms).toList := by
  induction terms with
  | nil => cases member
  | cons first others ih =>
    unfold joinDots at ih ⊢
    cases others with
    | nil =>
      obtain rfl := List.mem_singleton.1 member
      rwa [String.intercalate_singleton]
    | cons second others =>
      rw [String.intercalate_cons_cons, String.toList_append, String.toList_append]
      rcases List.mem_cons.1 member with rfl | later
      · simp [inside]
      · exact List.mem_append_right _ (ih later)

end Text

namespace Preprocessed

open Text (IsBlankRun IsTerm)

/-- The line is written for the record: `<kind> <name>;`, with white space at will around it and
before the semicolon, and some behind the kind. -/
def WrittenFor (line : String) (r : TypeRecord) : Prop :=
  ∃ before gap pad after : List Char,
    IsBlankRun before ∧ IsBlankRun gap ∧ gap ≠ [] ∧ IsBlankRun pad ∧ IsBlankRun after ∧
      line.toList = before ++
        (r.kind.keyword.toList ++ (gap ++ ((Text.joinDots r.terms).toList ++ pad)) ++ [';']) ++ after

/-- The documented format, in which every term is a name. -/
structure Documented (line : String) (r : TypeRecord) : Prop where
  written : WrittenFor line r
  terms : ∀ term ∈ r.terms, term ≠ "" ∧
    ∀ c ∈ term.toList, Text.isBlank c = false ∧ c ≠ '.' ∧ c ≠ ';'

variable {line : String} {r : TypeRecord}

/-- What is read from a line is a record that the line is written for. -/
theorem writtenFor_of_read (read : parseLine? line = some r) :
    WrittenFor line r ∧ (∀ term ∈ r.terms, IsTerm term) ∧ r.name ≠ "" := by
  obtain ⟨kept, word, qualified, kind, closed, cut, known, own⟩ := parseLine?_eq_some_iff.1 read
  obtain ⟨rfl, named, terms⟩ := recordOf?_eq_some_iff.1 own
  obtain ⟨before, after, whole, front, back⟩ := Text.exists_trim line.toList
  obtain ⟨pre, rest, rfl, lead, -, apart, cut⟩ := Text.exists_of_words_cons cut
  obtain ⟨gap, pad, rfl, between, solid, -, cut⟩ := Text.exists_of_words_cons cut
  have trail := Text.isBlankRun_of_words_nil cut
  have keyword : r.kind.keyword.toList = word := by
    rw [← Kind.ofKeyword?_eq_some_iff.1 known, String.toList_ofList]
  have name : (Text.joinDots r.terms).toList = qualified := by
    have again := Text.joinDots_dotted (String.ofList qualified)
    rw [terms] at again
    rw [TypeRecord.terms, again, String.toList_ofList]
  have some : gap ≠ [] := by
    -- else the first character of the name would be white space
    rintro rfl
    obtain ⟨c, cs, rfl⟩ := List.exists_cons_of_ne_nil solid.some
    have blank := apart c rfl
    rw [solid.dense c List.mem_cons_self] at blank
    cases blank
  refine ⟨⟨before ++ pre, gap, pad, after, ?_, between, some, trail, back, ?_⟩, ?_, named⟩
  · exact List.forall_mem_append.2 ⟨front, lead⟩
  · rw [whole, closed, keyword, name]
    simp only [List.append_assoc]
  · intro term member c inside
    have cut : term ∈ Text.dotted (String.ofList qualified) := terms ▸ member
    refine ⟨solid.dense c (name ▸ Text.mem_joinDots member inside), ?_⟩
    rintro rfl
    exact Text.dot_not_mem_of_mem_dotted cut inside

/-- A line that is written for a record is read as this record. -/
theorem read_of_writtenFor (written : WrittenFor line r) (terms : ∀ term ∈ r.terms, IsTerm term)
    (named : r.name ≠ "") : parseLine? line = some r := by
  obtain ⟨before, gap, pad, after, front, between, some, trail, back, whole⟩ := written
  have keyword := r.kind.isSolid_keyword
  have last : r.name ∈ r.terms := by simp [TypeRecord.terms]
  have solid := Text.isSolid_joinDots last named terms
  obtain ⟨c, cs, opening⟩ := List.exists_cons_of_ne_nil keyword.some
  have trimmed : Text.trim line.toList =
      r.kind.keyword.toList ++ (gap ++ ((Text.joinDots r.terms).toList ++ pad)) ++ [';'] := by
    have first : Text.isBlank c = false := keyword.dense c (by simp [opening])
    rw [whole, opening]
    exact Text.trim_surrounded front back first (by decide)
  have cut : Text.words (r.kind.keyword.toList ++ (gap ++ ((Text.joinDots r.terms).toList ++ pad))) =
      [r.kind.keyword.toList, (Text.joinDots r.terms).toList] := by
    have apart : ∀ d ∈ (gap ++ ((Text.joinDots r.terms).toList ++ pad)).head?,
        Text.isBlank d = true := by
      obtain ⟨e, es, rfl⟩ := List.exists_cons_of_ne_nil some
      intro d first
      cases first
      exact between _ List.mem_cons_self
    have apart' : ∀ d ∈ pad.head?, Text.isBlank d = true := fun d first =>
      trail d (List.mem_of_mem_head? first)
    rw [Text.words_solid_append keyword apart, Text.words_blank_append between,
      Text.words_solid_append solid apart', Text.words_of_isBlankRun trail]
  have again : Text.dotted (Text.joinDots r.terms) = r.package ++ [r.name] :=
    Text.dotted_joinDots_of_dotless (List.ne_nil_of_mem last) fun term member =>
      (terms term member).dotless
  refine parseLine?_eq_some_iff.2 ⟨_, _, _, r.kind, trimmed, cut, ?_, ?_⟩
  · rw [String.ofList_toList]
    exact Kind.ofKeyword?_eq_some_iff.2 rfl
  · rw [String.ofList_toList]
    exact recordOf?_eq_some_iff.2 ⟨rfl, named, again⟩

theorem read_iff_writtenFor :
    parseLine? line = some r ↔
      WrittenFor line r ∧ (∀ term ∈ r.terms, IsTerm term) ∧ r.name ≠ "" :=
  ⟨writtenFor_of_read, fun ⟨written, terms, named⟩ => read_of_writtenFor written terms named⟩

/-- The documented lines are those that are read as a record without an empty term and without a
semicolon in a term. -/
theorem documented_iff_read :
    Documented line r ↔ parseLine? line = some r ∧ (∀ term ∈ r.package, term ≠ "") ∧
      ∀ term ∈ r.terms, ';' ∉ term.toList := by
  rw [read_iff_writtenFor]
  constructor
  · rintro ⟨written, terms⟩
    refine ⟨⟨written, ?_, ?_⟩, ?_, ?_⟩
    · intro term member c inside
      obtain ⟨dense, dotless, -⟩ := (terms term member).2 c inside
      exact ⟨dense, dotless⟩
    · exact (terms r.name (by simp [TypeRecord.terms])).1
    · exact fun term member => (terms term (by simp [TypeRecord.terms, member])).1
    · exact fun term member inside => ((terms term member).2 ';' inside).2.2 rfl
  · rintro ⟨⟨written, plain, named⟩, package, bare⟩
    refine ⟨written, fun term member => ⟨?_, fun c inside => ?_⟩⟩
    · rcases List.mem_append.1 member with before | last
      · exact package term before
      · rwa [List.mem_singleton.1 last]
    · obtain ⟨dense, dotless⟩ := plain term member c inside
      refine ⟨dense, dotless, ?_⟩
      rintro rfl
      exact bare term member inside

/-- Every line and record: the line is read as the record exactly if it is written for it, with terms
of which only the last one must not be empty; and it is documented exactly if besides no term of the
package is empty and no term has a semicolon in it. -/
theorem parseLine?_decides (line : String) (r : TypeRecord) :
    (parseLine? line = some r ↔
        WrittenFor line r ∧ (∀ term ∈ r.terms, IsTerm term) ∧ r.name ≠ "") ∧
      (Documented line r ↔ parseLine? line = some r ∧ (∀ term ∈ r.package, term ≠ "") ∧
        ∀ term ∈ r.terms, ';' ∉ term.toList) :=
  ⟨read_iff_writtenFor, documented_iff_read⟩

/-- An empty term of a package is read, though no such line is documented. -/
theorem emptyTerm_read :
    parseLine? "parcelable a..B;" = some ⟨.parcelable, "B", ["a", ""]⟩ ∧
      ¬ ∃ r, Documented "parcelable a..B;" r := by
  have read : parseLine? "parcelable a..B;" = some ⟨.parcelable, "B", ["a", ""]⟩ := by
    decide +kernel
  refine ⟨read, ?_⟩
  rintro ⟨r, documented⟩
  obtain ⟨own, package, -⟩ := documented_iff_read.1 documented
  rw [read] at own
  cases own
  exact package "" (by simp) rfl

end Preprocessed

end IdlFrontEnd
