import IdlFrontEnd.Proofs.Path.NormalForm
import IdlFrontEnd.Proofs.Source.Store

/-!
# What a store remembers of its inserts

A store holds for each normal form the text that was inserted last under a path of this form. Whether
a file is there, whether it has a canonical path and whether it can be read is therefore one question,
and a canonical path stands for all the paths that reach its file.
-/
namespace IdlFrontEnd.FileStore

/-- The store after these inserts, one after the other. -/
def insertAll (s : FileStore) (files : List (String × String)) : FileStore :=
  files.foldl (fun s file => s.insert file.1 file.2) s

theorem find?_insertAll (files : List (String × String)) (path : String) :
    (empty.insertAll files).find? path =
      (files.reverse.find? fun file => Path.normalForm file.1 = Path.normalForm path).map
        Prod.snd := by
  induction files using List.reverseRecOn with
  | nil => rfl
  | append_singleton files file ih =>
    have last : empty.insertAll (files ++ [file]) = (empty.insertAll files).insert file.1 file.2 := by
      simp [insertAll]
    rw [last, find?_insert, List.reverse_append, List.reverse_singleton, List.singleton_append,
      List.find?_cons, ih]
    by_cases same : Path.normalForm file.1 = Path.normalForm path
    · simp [same]
    · simp [same, Ne.symm same]

theorem contains_eq_true_iff {s : FileStore} {path : String} :
    s.contains path = true ↔ ∃ text, s.find? path = some text := Option.isSome_iff_exists

theorem contains_insertAll_iff {files : List (String × String)} {path : String} :
    (empty.insertAll files).contains path = true ↔
      ∃ file ∈ files, Path.normalize file.1 = Path.normalize path := by
  unfold contains
  rw [find?_insertAll, Option.isSome_map, List.find?_isSome]
  simp [Path.normalize_eq_iff]

/-- The text of a file is the one that was inserted last. -/
theorem find?_insertAll_eq_some_iff {files : List (String × String)} {path text : String} :
    (empty.insertAll files).find? path = some text ↔
      ∃ before p after, files = before ++ (p, text) :: after ∧
        Path.normalize p = Path.normalize path ∧
        ∀ file ∈ after, Path.normalize file.1 ≠ Path.normalize path := by
  rw [find?_insertAll]
  simp only [Path.normalize_eq_iff, ne_eq]
  constructor
  · intro found
    obtain ⟨⟨p, own⟩, first, rfl⟩ := Option.map_eq_some_iff.1 found
    obtain ⟨same, later, before, parts, apart⟩ := List.find?_eq_some_iff_append.1 first
    refine ⟨before.reverse, p, later.reverse, ?_, of_decide_eq_true same, ?_⟩
    · rw [← List.reverse_reverse files, parts]
      simp
    · intro file member
      simpa using apart file (List.mem_reverse.1 member)
  · rintro ⟨before, p, after, rfl, same, apart⟩
    refine Option.map_eq_some_iff.2 ⟨(p, text), ?_, rfl⟩
    refine List.find?_eq_some_iff_append.2
      ⟨decide_eq_true same, after.reverse, before.reverse, by simp, ?_⟩
    intro file member
    simpa using apart file (List.mem_reverse.1 member)

section
variable {s : FileStore} {path q text : String}

theorem canonicalize_eq_ok_iff :
    s.canonicalize path = .ok q ↔ s.contains path = true ∧ Path.normalize path = q := by
  unfold canonicalize
  split
  next stored => simp [stored]
  next missing => simp [missing]

theorem read_eq_ok_iff : s.read path = .ok text ↔ s.find? path = some text := by
  unfold read
  cases s.find? path with
  | none => simp
  | some own => simp

theorem contains_normalize (s : FileStore) (path : String) :
    s.contains (Path.normalize path) = s.contains path := by
  unfold contains find?
  rw [Path.normalForm_normalize]

end

/-- Whatever was inserted, the three questions about a path have one answer, and it is yes if
something was inserted under this path or one with the same normal form. A canonical path is its own
canonical path, and all paths that have it read the same text: the one that was inserted last under
one of these paths. -/
theorem answers_of_inserts (files : List (String × String)) :
    (∀ path, ((empty.insertAll files).contains path = true ↔
          ∃ file ∈ files, Path.normalize file.1 = Path.normalize path) ∧
        ((empty.insertAll files).contains path = true ↔
          ∃ q, (empty.insertAll files).canonicalize path = .ok q) ∧
        ((empty.insertAll files).contains path = true ↔
          ∃ text, (empty.insertAll files).read path = .ok text)) ∧
      (∀ path q, (empty.insertAll files).canonicalize path = .ok q →
        (empty.insertAll files).canonicalize q = .ok q) ∧
      (∀ path other q, (empty.insertAll files).canonicalize path = .ok q →
        (empty.insertAll files).canonicalize other = .ok q →
        (empty.insertAll files).read path = (empty.insertAll files).read other) ∧
      ∀ path q, (empty.insertAll files).canonicalize path = .ok q →
        ∃ before p text after, files = before ++ (p, text) :: after ∧
          (empty.insertAll files).canonicalize p = .ok q ∧
          (∀ file ∈ after, (empty.insertAll files).canonicalize file.1 ≠ .ok q) ∧
          (empty.insertAll files).read path = .ok text := by
  refine ⟨fun path => ⟨contains_insertAll_iff, ?_, ?_⟩, ?_, ?_, ?_⟩
  · simp [canonicalize_eq_ok_iff]
  · simp [read_eq_ok_iff, contains_eq_true_iff]
  · intro path q canonical
    obtain ⟨stored, rfl⟩ := canonicalize_eq_ok_iff.1 canonical
    rw [canonicalize_eq_ok_iff, contains_normalize]
    exact ⟨stored, Path.normalize_normalize path⟩
  · intro path other q canonical canonical'
    obtain ⟨-, rfl⟩ := canonicalize_eq_ok_iff.1 canonical
    obtain ⟨-, same⟩ := canonicalize_eq_ok_iff.1 canonical'
    unfold read find?
    rw [same, Path.normalize_eq_iff.1 same]
  · intro path q canonical
    obtain ⟨stored, rfl⟩ := canonicalize_eq_ok_iff.1 canonical
    obtain ⟨text, found⟩ := contains_eq_true_iff.1 stored
    obtain ⟨before, p, after, parts, same, apart⟩ := find?_insertAll_eq_some_iff.1 found
    have inserted : (empty.insertAll files).contains p = true :=
      contains_insertAll_iff.2 ⟨(p, text), by simp [parts], rfl⟩
    refine ⟨before, p, text, after, parts, canonicalize_eq_ok_iff.2 ⟨inserted, same⟩, ?_,
      read_eq_ok_iff.2 found⟩
    intro file member canonical
    exact apart file member (canonicalize_eq_ok_iff.1 canonical).2

/-- Three ways to write one path, and a `..` that takes back the root. -/
def rewritten : List (String × String) :=
  [("/../a/b.aidl", "first"), ("c.aidl", "other"), ("a//./b.aidl", "second")]

theorem rewritten_answers :
    (empty.insertAll rewritten).canonicalize "a/c/../b.aidl" = .ok "a/b.aidl" ∧
      (empty.insertAll rewritten).canonicalize "a/b.aidl" = .ok "a/b.aidl" ∧
      (empty.insertAll rewritten).read "a/c/../b.aidl" = (empty.insertAll rewritten).read "a/b.aidl" ∧
      (empty.insertAll rewritten).read "a/b.aidl" = .ok "second" := by
  obtain ⟨-, idempotent, alike, -⟩ := answers_of_inserts rewritten
  have canonical : (empty.insertAll rewritten).canonicalize "a/c/../b.aidl" = .ok "a/b.aidl" :=
    canonicalize_eq_ok_iff.2 ⟨by decide +kernel, by decide +kernel⟩
  have again := idempotent _ _ canonical
  exact ⟨canonical, again, alike _ _ _ canonical again, read_eq_ok_iff.2 (by decide +kernel)⟩

end IdlFrontEnd.FileStore
