import IdlFrontEnd.Proofs.Grammar.Spelled
import IdlFrontEnd.Proofs.Lookup
import IdlFrontEnd.Proofs.Source.Store
import IdlFrontEnd.Proofs.Text.Parts
import IdlFrontEnd.Proofs.Token.Line
import Mathlib.Logic.ExistsUnique

/-!
# Preprocessed files are read back

A line is written with the canonical name of a type and read with a package and a name, cut apart at
the last dot of that name. A type that is nested in another one so gets the outer one for a package,
and yet the canonical name stays as it was, and so does the kind. What is read from a listing is
therefore one record for each canonical name in it, and a line that is made of what was read from a
line is read in the same way.
-/
namespace IdlFrontEnd

theorem canonicalName_eq_joinDots (package : List String) (name : String) :
    canonicalName package name = Text.joinDots (package ++ [name]) := by
  unfold canonicalName Text.joinDots
  split
  next none =>
    rw [List.isEmpty_iff.1 none, List.nil_append, String.intercalate_singleton]
  next some =>
    rw [String.intercalate_append_of_ne_nil (by simpa using some) (List.cons_ne_nil _ _),
      String.intercalate_singleton]

namespace Kind

theorem ofKeyword?_eq_some_iff {word : String} {k : Kind} :
    ofKeyword? word = some k ↔ word = k.keyword := by
  constructor
  · intro h
    unfold ofKeyword? at h
    have same := List.find?_some h
    exact (of_decide_eq_true same).symm
  · rintro rfl
    cases k <;> rfl

theorem keyword_inj {k l : Kind} (same : k.keyword = l.keyword) : k = l := by
  revert same
  cases k <;> cases l <;> decide

theorem isSolid_keyword (k : Kind) : Text.IsSolid k.keyword.toList := by
  have some : k.keyword.toList ≠ [] := by cases k <;> decide
  have dense : k.keyword.toList.all (!Text.isBlank ·) = true := by cases k <;> rfl
  exact ⟨some, fun c member => by simpa using List.all_eq_true.1 dense c member⟩

end Kind

theorem Text.isBlank_of_isIdentifier {word : String} (identifier : isIdentifier word = true)
    {c : Char} (member : c ∈ word.toList) : isBlank c = false :=
  Piece.isBlank_of_isWordPart (isWordPart_of_isIdentifier identifier member)

theorem Text.IsQualified.isSolid {text : String} (qualified : IsQualified text) :
    IsSolid text.toList := by
  constructor
  · intro empty
    rw [String.toList_eq_nil_iff.1 empty] at qualified
    exact absurd (qualified "" (by simp [dotted])).identifier (by decide)
  · intro c member
    by_cases dot : c = '.'
    · rw [dot]
      decide
    · obtain ⟨term, inside, own⟩ := exists_mem_dotted member dot
      exact isBlank_of_isIdentifier (qualified term inside).identifier own

namespace Preprocessed

variable {kind : Kind} {qualified : String} {r : TypeRecord}

/-! ## One line -/

theorem toList_line (kind : Kind) (name : String) :
    (kind.keyword ++ " " ++ name ++ ";").toList =
      kind.keyword.toList ++ ' ' :: name.toList ++ [';'] := by
  simp

theorem recordOf?_eq_some_iff :
    recordOf? kind qualified = some r ↔
      r.kind = kind ∧ r.name ≠ "" ∧ Text.dotted qualified = r.package ++ [r.name] := by
  unfold recordOf?
  constructor
  · intro read
    dsimp only at read
    split at read
    · cases read
    · cases read
    next name named last =>
      cases read
      obtain ⟨before, terms⟩ := List.getLast?_eq_some_iff.1 last
      refine ⟨rfl, named, ?_⟩
      rw [terms, List.dropLast_concat]
  · rintro ⟨rfl, named, terms⟩
    dsimp only
    rw [terms, List.getLast?_concat, List.dropLast_concat]
    split
    next absent => cases absent
    next absent => exact absurd (Option.some.inj absent) named
    next own =>
      cases own
      rfl

/-- The record has the name that is written in the line. -/
theorem canonical_of_recordOf? (read : recordOf? kind qualified = some r) :
    r.canonical = qualified := by
  obtain ⟨-, -, terms⟩ := recordOf?_eq_some_iff.1 read
  rw [TypeRecord.canonical, canonicalName_eq_joinDots, ← terms, Text.joinDots_dotted]

theorem parseLine?_written (solid : Text.IsSolid qualified.toList) :
    parseLine? (kind.keyword ++ " " ++ qualified ++ ";") = recordOf? kind qualified := by
  have keyword := kind.isSolid_keyword
  obtain ⟨c, cs, front⟩ := List.exists_cons_of_ne_nil keyword.some
  have trimmed : Text.trim (kind.keyword ++ " " ++ qualified ++ ";").toList =
      kind.keyword.toList ++ ' ' :: qualified.toList ++ [';'] := by
    rw [toList_line, front]
    exact Text.trim_of_ends (keyword.dense c (by simp [front])) (by decide)
  have words := Text.words_pair (c := ' ') (by decide) keyword solid
  refine Option.ext fun r => parseLine?_eq_some_iff.trans ?_
  constructor
  · rintro ⟨kept, word, own, k, closed, cut, known, read⟩
    obtain rfl := List.append_cancel_right (trimmed.symm.trans closed)
    rw [words] at cut
    obtain ⟨rfl, rfl⟩ : kind.keyword.toList = word ∧ qualified.toList = own := by simpa using cut
    rw [String.ofList_toList] at known read
    rwa [Kind.keyword_inj (Kind.ofKeyword?_eq_some_iff.1 known)]
  · intro read
    refine ⟨_, _, _, kind, trimmed, words, ?_, ?_⟩
    · rw [String.ofList_toList]
      exact Kind.ofKeyword?_eq_some_iff.2 rfl
    · rwa [String.ofList_toList]

/-- A line that is made of a record is read as this record, if any line is. -/
theorem parseLine?_again {line : String} (read : parseLine? line = some r) :
    parseLine? (r.kind.keyword ++ " " ++ r.canonical ++ ";") = some r := by
  obtain ⟨kept, word, name, kind, -, words, -, own⟩ := parseLine?_eq_some_iff.1 read
  have inside : name ∈ Text.words kept := by simp [words]
  have solid := Text.isSolid_of_mem_words inside
  have canonical := canonical_of_recordOf? own
  obtain ⟨same, -, -⟩ := recordOf?_eq_some_iff.1 own
  rw [canonical, parseLine?_written (by simpa using solid), same]
  exact own

/-! ## A listing of types -/

/-- What is read from the line of a type. -/
def listed (d : Declaration) : TypeRecord :=
  ⟨d.kind, Text.lastTerm d.canonical, (Text.dotted d.canonical).dropLast⟩

theorem dotted_listed (d : Declaration) :
    Text.dotted d.canonical = (listed d).package ++ [(listed d).name] := by
  have some := Text.dotted_ne_nil d.canonical
  rw [listed, Text.lastTerm, List.getLast?_eq_some_getLast some, Option.getD_some,
    List.dropLast_concat_getLast]

theorem canonical_listed (d : Declaration) : (listed d).canonical = d.canonical := by
  rw [TypeRecord.canonical, canonicalName_eq_joinDots, ← dotted_listed, Text.joinDots_dotted]

theorem parseLine?_lineOf {d : Declaration} (qualified : Text.IsQualified d.canonical) :
    parseLine? (lineOf (.ofDeclaration d)) = some (listed d) := by
  change parseLine? (d.kind.keyword ++ " " ++ d.canonical ++ ";") = _
  rw [parseLine?_written qualified.isSolid, recordOf?_eq_some_iff]
  refine ⟨rfl, fun empty => ?_, dotted_listed d⟩
  have last := (qualified _ (Text.lastTerm_mem d.canonical)).identifier
  change Text.isIdentifier (listed d).name = true at last
  rw [empty] at last
  exact absurd last (by decide)

theorem lineOf_read (r : TypeRecord) : isPassedOver (lineOf r) = false := by
  have chars := toList_line r.kind r.canonical
  have some : lineOf r ≠ "" := by
    intro empty
    rw [← lineOf, empty] at chars
    simp at chars
  have uncommented : Text.startsWith "//" (lineOf r) = false := by
    rw [Text.startsWith, lineOf, chars]
    cases r.kind <;> rfl
  simp [isPassedOver, some, uncommented]

/-- The line of a type has no end of a line in it and ends with the semicolon. -/
theorem lineOf_chars {d : Declaration} (qualified : Text.IsQualified d.canonical) :
    '\n' ∉ (lineOf (.ofDeclaration d)).toList ∧
      (lineOf (.ofDeclaration d)).toList.getLast? ≠ some '\r' := by
  have dense (cs : List Char) (solid : Text.IsSolid cs) : '\n' ∉ cs := fun member =>
    absurd (solid.dense _ member) (by decide)
  have chars : (lineOf (.ofDeclaration d)).toList = _ := toList_line d.kind d.canonical
  rw [chars, List.getLast?_concat]
  refine ⟨?_, by decide⟩
  simp [dense _ d.kind.isSolid_keyword, dense _ qualified.isSolid]

/-- The lines of a listing are those of its types. -/
theorem lines_write {documents : List Document}
    (qualified : ∀ d ∈ documents.flatMap Document.types, Text.IsQualified d.canonical) :
    Text.lines (write documents) =
      (documents.flatMap Document.types).map fun d => lineOf (.ofDeclaration d) := by
  have joined : write documents = String.join
      (((documents.flatMap Document.types).map fun d => lineOf (.ofDeclaration d)).map
        (· ++ "\n")) := by
    rw [write, List.map_map]
    rfl
  rw [joined]
  apply Text.lines_join
  all_goals
    intro line member
    obtain ⟨d, inside, rfl⟩ := List.mem_map.1 member
  · exact (lineOf_chars (qualified d inside)).1
  · exact (lineOf_chars (qualified d inside)).2

/-- Lines that are all read come down to adding their records. -/
theorem addLines_listed {file : String} {number : UInt32} {g : Registry} {types : List Declaration}
    (qualified : ∀ d ∈ types, Text.IsQualified d.canonical) :
    addLines file number g (types.map fun d => lineOf (.ofDeclaration d)) =
      ((g.addAll ((types.map listed).map (⟨.preprocessed, ·⟩))).1, none) := by
  induction types generalizing number g with
  | nil => rfl
  | cons d types ih =>
    obtain ⟨own, others⟩ := List.forall_mem_cons.1 qualified
    rw [List.map_cons, addLines, if_neg (by simp [lineOf_read]), parseLine?_lineOf own]
    exact ih others

end Preprocessed

/-! ## What a registry has read -/

/-- Of some types the registry lists all and no others: nothing was parsed, and for each canonical
name there is one record, of the kind of the first type with that name. -/
structure Registry.Lists (g : Registry) (types : List Declaration) : Prop where
  unparsed : g.defined.records = []
  listed : ∀ r ∈ g.preprocessed.records,
    (types.find? (·.canonical = r.canonical)).map Declaration.kind = some r.kind
  once : ∀ d ∈ types, ∃! r, r ∈ g.preprocessed.records ∧ r.canonical = d.canonical

theorem Addition.recordsOf_map (o origin : Origin) (rs : List TypeRecord) :
    recordsOf o (rs.map (⟨origin, ·⟩)) = if origin = o then rs else [] := by
  by_cases same : origin = o <;> simp [recordsOf, List.filter_map, Function.comp_def, same]

theorem TypeRecord.find?_of_mem_firsts {rs : List TypeRecord} {r : TypeRecord}
    (member : r ∈ firsts rs) : rs.find? (·.canonical = r.canonical) = some r := by
  induction rs with
  | nil => cases member
  | cons x rs ih =>
    rcases List.mem_cons.1 member with rfl | later
    · exact List.find?_cons_of_pos (by simp)
    · obtain ⟨inside, other⟩ := List.mem_filter.1 later
      have apart : x.canonical ≠ r.canonical := Ne.symm (of_decide_eq_true other)
      rw [List.find?_cons_of_neg (by simpa using apart)]
      exact ih inside

namespace Preprocessed

theorem addAll_lists (types : List Declaration) :
    (Registry.empty.addAll ((types.map listed).map (⟨.preprocessed, ·⟩))).1.Lists types := by
  have holds := Registry.empty_holds.addAll ((types.map listed).map (⟨.preprocessed, ·⟩))
  generalize (Registry.empty.addAll ((types.map listed).map (⟨.preprocessed, ·⟩))).1 = g at holds
  have defined := holds .defined
  have preprocessed := holds .preprocessed
  rw [List.nil_append, Addition.recordsOf_map, if_neg (by decide)] at defined
  rw [List.nil_append, Addition.recordsOf_map, if_pos rfl] at preprocessed
  refine ⟨defined.perm.eq_nil, ?_, ?_⟩
  · intro r member
    have found := TypeRecord.find?_of_mem_firsts (preprocessed.mem_iff.1 member)
    rw [List.find?_map] at found
    obtain ⟨d, first, rfl⟩ := Option.map_eq_some_iff.1 found
    simp only [Function.comp_def, canonical_listed] at first ⊢
    rw [first]
    rfl
  · intro d member
    obtain ⟨r, inside, named⟩ : ∃ r ∈ TypeRecord.firsts (types.map listed),
        r.canonical = d.canonical :=
      TypeRecord.mem_firsts_canonical.2 ⟨_, List.mem_map_of_mem member, canonical_listed d⟩
    refine ⟨r, ⟨preprocessed.mem_iff.2 inside, named⟩, ?_⟩
    rintro s ⟨other, same⟩
    exact (TypeRecord.firsts_distinct _).eq (preprocessed.mem_iff.1 other) inside
      (same.trans named.symm)

/-- A document that a text was read as, without a report. -/
def ReadInSilence (document : Document) : Prop :=
  ∃ path text file, Grammar.SourceFile.ofText path text = (file, []) ∧ file.document = document

theorem ReadInSilence.of_text {path text : String}
    (silent : (Grammar.SourceFile.ofText path text).2 = []) :
    ReadInSilence (Grammar.SourceFile.ofText path text).1.document :=
  ⟨path, text, _, Prod.ext rfl silent, rfl⟩

theorem ReadInSilence.qualified {document : Document} (read : ReadInSilence document) :
    ∀ d ∈ document.types, Text.IsQualified d.canonical := by
  obtain ⟨path, text, file, silent, rfl⟩ := read
  exact (Grammar.ofText_spelled silent).canonical

/-- A listing of documents is read without a report, and an empty registry then lists their types.
A line that is made of a record that was read from any line is read as this record again. -/
theorem listing_read_back :
    (∀ documents : List Document, (∀ document ∈ documents, ReadInSilence document) →
      ∀ (provider : SourceProvider) (path : String), provider.read path = .ok (write documents) →
        ∀ reporter : Reporter, ∃ g,
          read provider path ⟨.empty, reporter⟩ = (true, ⟨g, reporter⟩) ∧
            g.Lists (documents.flatMap Document.types)) ∧
      ∀ (line : String) (r : TypeRecord), parseLine? line = some r →
        parseLine? (r.kind.keyword ++ " " ++ r.canonical ++ ";") = some r := by
  refine ⟨?_, fun line r => parseLine?_again⟩
  intro documents silent provider path there reporter
  have qualified : ∀ d ∈ documents.flatMap Document.types, Text.IsQualified d.canonical := by
    intro d member
    obtain ⟨document, inside, own⟩ := List.mem_flatMap.1 member
    exact (silent document inside).qualified d own
  refine ⟨_, ?_, addAll_lists _⟩
  unfold read
  rw [there]
  dsimp only
  rw [lines_write qualified, addLines_listed qualified]
  rfl

/-- A nested type, and a name that the second document uses for another kind. -/
def listedTexts : List (String × String) :=
  [("b.aidl", "package b; parcelable Outer.Inner \x7b int x; \x7d interface Ping \x7b\x7d"),
   ("c.aidl", "package b; parcelable Ping;")]

def listedTwice : List Document :=
  listedTexts.map fun file => (Grammar.SourceFile.ofText file.1 file.2).1.document

theorem listedTwice_read_back :
    (∀ document ∈ listedTwice, ReadInSilence document) ∧
      write listedTwice =
        "structured_parcelable b.Outer.Inner;\ninterface b.Ping;\nparcelable b.Ping;\n" ∧
      (∃ g,
        read (FileStore.empty.insert "types" (write listedTwice)).provider "types"
            ⟨.empty, .empty⟩ = (true, ⟨g, .empty⟩) ∧
          g.Lists (listedTwice.flatMap Document.types)) ∧
      parseLine? " interface\tb.Ping ;" = some ⟨.interface, "Ping", ["b"]⟩ ∧
      parseLine? "interface b.Ping;" = some ⟨.interface, "Ping", ["b"]⟩ := by
  have silent : ∀ document ∈ listedTwice, ReadInSilence document := by
    intro document member
    obtain ⟨file, inside, rfl⟩ := List.mem_map.1 member
    have each : ∀ file ∈ listedTexts, (Grammar.SourceFile.ofText file.1 file.2).2 = [] := by
      decide +kernel
    exact .of_text (each file inside)
  have line : parseLine? " interface\tb.Ping ;" = some ⟨.interface, "Ping", ["b"]⟩ := by
    decide +kernel
  have there : (FileStore.empty.insert "types" (write listedTwice)).provider.read "types" =
      .ok (write listedTwice) := FileStore.read_insert .empty "types" _
  obtain ⟨listings, lines⟩ := listing_read_back
  have again := lines _ _ line
  have written : Kind.interface.keyword ++ " " ++ canonicalName ["b"] "Ping" ++ ";" =
      "interface b.Ping;" := by decide +kernel
  rw [TypeRecord.canonical, written] at again
  exact ⟨silent, by decide +kernel, listings _ silent _ _ there .empty, line, again⟩

end Preprocessed

end IdlFrontEnd
