import IdlFrontEnd.Proofs.Grammar.Spelled
import IdlFrontEnd.Proofs.Path
import IdlFrontEnd.Proofs.Unit.Declared

/-!
# Where a type is declared and where its import is looked for

A type must be declared in the file of its outermost type, and an import of that type is looked for
there. The two names are built apart: one from the package and the part of the name before the first
dot, the other from every term of the class. They agree unless the type is nested: an import of
`a.b.Outer.Inner` is looked for in `a/b/Outer/Inner.aidl`, and it is the import of `a.b.Outer` that
leads to the file of both.
-/
namespace IdlFrontEnd

open Text

theorem Text.isSegment_of_isIdentifier {text : String} (identifier : isIdentifier text = true) :
    Path.IsSegment text := by
  have whole : '/' ∉ text.toList := fun member =>
    absurd (isWordPart_of_isIdentifier identifier member) (by decide)
  cases chars : text.toList with
  | nil =>
    rw [String.toList_eq_nil_iff.1 chars] at identifier
    exact absurd identifier (by decide)
  | cons c cs =>
    have slash : c ≠ '/' := by
      rintro rfl
      exact whole (by simp [chars])
    have dot : c ≠ '.' := by
      rintro rfl
      exact dot_not_mem_of_isIdentifier identifier (by simp [chars])
    exact ⟨⟨c, cs, chars, slash, dot⟩, whole⟩

namespace ImportSearch

theorem isSegment_of_mem {front : List String} {last : String}
    (identifiers : ∀ term ∈ front ++ [last], isIdentifier term = true) :
    ∀ name ∈ front ++ [last ++ "." ++ fileExtension], Path.IsSegment name := by
  intro name member
  rcases List.mem_append.1 member with before | own
  · exact isSegment_of_isIdentifier (identifiers name (by simp [before]))
  · rw [List.mem_singleton.1 own]
    exact (isSegment_of_isIdentifier (identifiers last (by simp))).extend (by decide)

theorem relativeFile_joinDots {front : List String} {last : String}
    (identifiers : ∀ term ∈ front ++ [last], isIdentifier term = true) :
    relativeFile (joinDots (front ++ [last])) =
      Path.joinAll (front ++ [last ++ "." ++ fileExtension]) := by
  have own : isIdentifier last = true := identifiers last (by simp)
  rw [relativeFile, dotted_joinDots (by simp) identifiers, Path.joinAll_concat,
    Path.withExtension_join (isSegment_of_isIdentifier own) (dot_not_mem_of_isIdentifier own),
    Path.joinAll_concat]

theorem startsNamed_relativeFile {className : String} (qualified : IsQualified className) :
    Path.StartsNamed (relativeFile className) := by
  obtain ⟨front, last, terms⟩ :=
    (List.eq_nil_or_concat (dotted className)).resolve_left (dotted_ne_nil className)
  rw [List.concat_eq_append] at terms
  have identifiers : ∀ term ∈ front ++ [last], isIdentifier term = true := fun term member =>
    (qualified term (terms ▸ member)).identifier
  rw [← joinDots_dotted className, terms, relativeFile_joinDots identifiers]
  exact Path.startsNamed_joinAll (by simp) (isSegment_of_mem identifiers)

/-- With one place to look in, a class is found there or nowhere. -/
theorem file?_of_root {provider : SourceProvider} {options : Options} {root : String}
    (roots : options.importPaths = [root]) (inputs : options.inputFiles = []) (className : String) :
    file? provider options className =
      if provider.isFile (Path.join root (relativeFile className)) = true then
        some (Path.join root (relativeFile className))
      else none := by
  unfold file?
  dsimp only
  rw [roots, inputs, List.map_singleton, List.find?_singleton, List.find?_nil]
  simp

/-- A file that is there is found for the classes that lead to it from the root. -/
theorem file?_eq_some_join_iff {provider : SourceProvider} {options : Options}
    {root className place : String} (roots : options.importPaths = [root])
    (inputs : options.inputFiles = []) (led : Path.StartsNamed (relativeFile className))
    (named : Path.StartsNamed place) (there : provider.isFile (Path.join root place) = true) :
    file? provider options className = some (Path.join root place) ↔
      relativeFile className = place := by
  rw [file?_of_root roots inputs]
  constructor
  · intro found
    split at found
    · exact Path.join_inj led.relative named.relative (Option.some.inj found)
    · cases found
  · intro same
    rw [same, if_pos there]

end ImportSearch

namespace Declaration

/-- The part of the name before the first dot. -/
def outermost (d : Declaration) : String := (dotted d.name).headD d.name

theorem dotted_name (d : Declaration) : ∃ inner, dotted d.name = d.outermost :: inner := by
  obtain ⟨first, inner, terms⟩ := List.exists_cons_of_ne_nil (dotted_ne_nil d.name)
  exact ⟨inner, by rw [outermost, terms, List.headD_cons]⟩

theorem expectedFile_eq_joinAll (d : Declaration) :
    d.expectedFile = Path.joinAll (d.header.package ++ [d.outermost ++ "." ++ fileExtension]) :=
  (Path.joinAll_concat _ _).symm

variable {d : Declaration}

section

variable (words : ∀ term ∈ d.header.package, IsFreeWord term) (qualified : IsQualified d.name)
include words qualified

theorem isIdentifier_of_terms :
    ∀ term ∈ d.header.package ++ dotted d.name, isIdentifier term = true := by
  intro term member
  rcases List.mem_append.1 member with outer | own
  · exact (words term outer).identifier
  · exact (qualified term own).identifier

theorem isIdentifier_of_outer :
    ∀ term ∈ d.header.package ++ [d.outermost], isIdentifier term = true := by
  obtain ⟨inner, terms⟩ := d.dotted_name
  intro term member
  apply isIdentifier_of_terms words qualified
  rw [terms]
  rcases List.mem_append.1 member with outer | own
  · exact List.mem_append_left _ outer
  · exact List.mem_append_right _ (by simp [List.mem_singleton.1 own])

theorem startsNamed_expectedFile : Path.StartsNamed d.expectedFile := by
  rw [expectedFile_eq_joinAll]
  exact Path.startsNamed_joinAll (by simp)
    (ImportSearch.isSegment_of_mem (isIdentifier_of_outer words qualified))

/-- An import of the outermost type is looked for where the type must be declared. -/
theorem relativeFile_outermost :
    ImportSearch.relativeFile (canonicalName d.header.package d.outermost) = d.expectedFile := by
  have identifiers := isIdentifier_of_outer words qualified
  have own : dotted d.outermost = [d.outermost] := by
    rw [dotted, List.splitOn_eq_singleton
      (dot_not_mem_of_isIdentifier (identifiers d.outermost (by simp)))]
    simp
  rw [canonicalName_eq_joinDots_append, own, ImportSearch.relativeFile_joinDots identifiers,
    expectedFile_eq_joinAll]

/-- For a nested type there is one segment more for every term behind the first dot. -/
theorem relativeFile_canonical_iff :
    ImportSearch.relativeFile d.canonical = d.expectedFile ↔ '.' ∉ d.name.toList := by
  obtain ⟨inner, terms⟩ := d.dotted_name
  have identifiers := isIdentifier_of_terms words qualified
  constructor
  · intro same
    have outer := isIdentifier_of_outer words qualified
    rcases List.eq_nil_or_concat inner with rfl | ⟨middle, last, rfl⟩
    · have single : d.name = d.outermost := by
        rw [← joinDots_dotted d.name, terms, joinDots, String.intercalate_singleton]
      rw [single]
      exact dot_not_mem_of_isIdentifier (outer d.outermost (by simp))
    · have regrouped : d.header.package ++ dotted d.name =
          d.header.package ++ d.outermost :: middle ++ [last] := by
        simp [terms]
      rw [regrouped] at identifiers
      rw [canonical, canonicalName_eq_joinDots_append, regrouped,
        ImportSearch.relativeFile_joinDots identifiers, expectedFile_eq_joinAll] at same
      have equal := Path.joinAll_inj (ImportSearch.isSegment_of_mem identifiers)
        (ImportSearch.isSegment_of_mem outer) same
      have lengths := congrArg List.length equal
      simp at lengths
  · intro dotless
    have single : d.outermost = d.name := by
      rw [outermost, dotted, List.splitOn_eq_singleton dotless]
      simp
    rw [canonical, ← single]
    exact relativeFile_outermost words qualified

end

/-- The file that is expected for a type of a text without a report is accepted for it. If it is
there, the import of the outermost type leads to it, and the import of the type itself exactly if
the type is not nested. -/
theorem expectedFile_searched {path text : String}
    (silent : (Grammar.SourceFile.ofText path text).2 = [])
    (member : d ∈ (Grammar.SourceFile.ofText path text).1.types)
    {provider : SourceProvider} {options : Options} {root : String}
    (roots : options.importPaths = [root]) (inputs : options.inputFiles = [])
    (there : provider.isFile (Path.join root d.expectedFile) = true) :
    d.placementNotes (Path.join root d.expectedFile) = [] ∧
      ImportSearch.file? provider options (canonicalName d.header.package d.outermost) =
        some (Path.join root d.expectedFile) ∧
      (ImportSearch.file? provider options d.canonical = some (Path.join root d.expectedFile) ↔
        '.' ∉ d.name.toList) := by
  have spelled := Grammar.ofText_spelled (Prod.ext rfl silent :
    Grammar.SourceFile.ofText path text = ((Grammar.SourceFile.ofText path text).1, []))
  have own := spelled.types d member
  have words : ∀ term ∈ d.header.package, IsFreeWord term := own.package ▸ spelled.words
  have qualified : IsQualified d.name := own.qualified
  have named := startsNamed_expectedFile words qualified
  have found {className : String} (led : Path.StartsNamed (ImportSearch.relativeFile className)) :=
    ImportSearch.file?_eq_some_join_iff roots inputs led named there
  refine ⟨?accepted, ?outermost, ?itself⟩
  case accepted => exact placementNotes_eq_nil_iff.2 (Path.endsWith_join named root)
  case outermost =>
    have same := relativeFile_outermost words qualified
    apply (found _).2 same
    rwa [same]
  case itself =>
    have led := ImportSearch.startsNamed_relativeFile (isQualified_canonicalName words qualified)
    exact (found led).trans (relativeFile_canonical_iff words qualified)

end Declaration

/-- A type and one nested in it, in the file of both. -/
def nestedText : String := "package a.b; parcelable Outer; parcelable Outer.Inner;"

def nestedSource : FileStore := FileStore.empty.insert "inc/a/b/Outer.aidl" nestedText

def searchInc : Options := { Options.empty with importPaths := ["inc"] }

theorem nestedText_silent : (Grammar.SourceFile.ofText "inc/a/b/Outer.aidl" nestedText).2 = [] := by
  decide +kernel

theorem nestedText_types :
    ∃ outer inner,
      (Grammar.SourceFile.ofText "inc/a/b/Outer.aidl" nestedText).1.types = [outer, inner] ∧
        (outer.name = "Outer" ∧ outer.canonical = "a.b.Outer" ∧
          outer.expectedFile = "a/b/Outer.aidl") ∧
        inner.name = "Outer.Inner" ∧ inner.canonical = "a.b.Outer.Inner" ∧
          inner.expectedFile = "a/b/Outer.aidl" := by
  have evaluated :
      (Grammar.SourceFile.ofText "inc/a/b/Outer.aidl" nestedText).1.types.map
          (fun d => (d.name, d.canonical, d.expectedFile)) =
        [("Outer", "a.b.Outer", "a/b/Outer.aidl"),
          ("Outer.Inner", "a.b.Outer.Inner", "a/b/Outer.aidl")] := by
    decide +kernel
  obtain ⟨outer, others, whole, first, rest⟩ := List.map_eq_cons_iff.1 evaluated
  obtain ⟨inner, none, rfl, second, ended⟩ := List.map_eq_cons_iff.1 rest
  rw [List.map_eq_nil_iff.1 ended] at whole
  exact ⟨outer, inner, whole, by simpa using first, by simpa using second⟩

theorem nestedSource_isFile :
    nestedSource.provider.isFile (Path.join "inc" "a/b/Outer.aidl") = true := by
  decide +kernel

theorem nestedSource_searched :
    ∃ outer inner,
      (Grammar.SourceFile.ofText "inc/a/b/Outer.aidl" nestedText).1.types = [outer, inner] ∧
        outer.canonical = "a.b.Outer" ∧
        ImportSearch.file? nestedSource.provider searchInc "a.b.Outer" =
          some "inc/a/b/Outer.aidl" ∧
        inner.canonical = "a.b.Outer.Inner" ∧
        inner.placementNotes "inc/a/b/Outer.aidl" = [] ∧
        ImportSearch.file? nestedSource.provider searchInc "a.b.Outer.Inner" ≠
          some "inc/a/b/Outer.aidl" := by
  obtain ⟨outer, inner, types, ⟨name, canonical, expected⟩, name', canonical', expected'⟩ :=
    nestedText_types
  have joined : Path.join "inc" "a/b/Outer.aidl" = "inc/a/b/Outer.aidl" := by decide +kernel
  have there := nestedSource_isFile
  have roots : searchInc.importPaths = ["inc"] := rfl
  obtain ⟨-, -, found⟩ := Declaration.expectedFile_searched (d := outer) nestedText_silent
    (by simp [types]) roots rfl (by rwa [expected])
  obtain ⟨accepted, -, found'⟩ := Declaration.expectedFile_searched (d := inner) nestedText_silent
    (by simp [types]) roots rfl (by rwa [expected'])
  rw [canonical, expected, joined, name] at found
  rw [expected', joined] at accepted
  rw [canonical', expected', joined, name'] at found'
  refine ⟨outer, inner, types, canonical, found.2 (by decide), canonical', accepted, ?_⟩
  intro same
  exact found'.1 same (by decide)

/-- Not every type is found where it must be declared. -/
theorem nestedInner_unfound :
    ¬ ∀ (path text : String) (d : Declaration),
      (Grammar.SourceFile.ofText path text).2 = [] →
      d ∈ (Grammar.SourceFile.ofText path text).1.types →
        ∀ (provider : SourceProvider) (options : Options) (root : String),
          options.importPaths = [root] → options.inputFiles = [] →
          provider.isFile (Path.join root d.expectedFile) = true →
            ImportSearch.file? provider options d.canonical =
                some (Path.join root d.expectedFile) ∧
              d.placementNotes (Path.join root d.expectedFile) = [] := by
  intro claimed
  obtain ⟨outer, inner, types, -, -, canonical, expected⟩ := nestedText_types
  have found := (claimed _ _ inner nestedText_silent (by simp [types]) nestedSource.provider
    searchInc "inc" rfl rfl (by rw [expected]; exact nestedSource_isFile)).1
  have unfound :
      ImportSearch.file? nestedSource.provider searchInc "a.b.Outer.Inner" = none := by
    decide +kernel
  rw [canonical, unfound] at found
  cases found

end IdlFrontEnd
