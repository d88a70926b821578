import IdlFrontEnd.Source.Store

/-!
# Files in memory

What a store finds after one of its files was replaced, and what the paths that reach one file have in
common.
-/
namespace IdlFrontEnd.FileStore

variable {s : FileStore} {path other text : String}

theorem lookup_filter_ne {key k : List Path.Component} (apart : k ≠ key)
    (files : List (List Path.Component × String)) :
    (files.filter (·.1 ≠ key)).lookup k = files.lookup k := by
  induction files with
  | nil => rfl
  | cons file files ih =>
    obtain ⟨own, text⟩ := file
    by_cases same : own = key
    · subst same
      rw [List.filter_cons_of_neg (by simp), ih, List.lookup_cons, beq_false_of_ne apart]
    · rw [List.filter_cons_of_pos (by simpa using same), List.lookup_cons, List.lookup_cons, ih]

theorem find?_insert (s : FileStore) (path text other : String) :
    (s.insert path text).find? other =
      if Path.normalForm other = Path.normalForm path then some text else s.find? other := by
  unfold find? insert
  rw [List.lookup_cons]
  split
  next same =>
    rw [if_pos (eq_of_beq same)]
  next apart =>
    have ne : Path.normalForm other ≠ Path.normalForm path := fun same =>
      Bool.false_ne_true (apart.symm.trans (beq_iff_eq.2 same))
    rw [if_neg ne, lookup_filter_ne ne]

theorem read_insert (s : FileStore) (path text : String) :
    (s.insert path text).read path = .ok text := by
  rw [read, find?_insert, if_pos rfl]

theorem contains_of_read (h : s.read path = .ok text) : s.contains path = true := by
  unfold read at h
  unfold contains
  cases found : s.find? path with
  | none =>
    rw [found] at h
    cases h
  | some stored => rfl

/-- A file is stored under the normal form of its path. -/
theorem mem_keys_of_contains (h : s.contains path = true) :
    Path.normalForm path ∈ s.files.map Prod.fst := by
  obtain ⟨file, member, same⟩ := List.lookup_isSome_iff.1 h
  exact List.mem_map.2 ⟨file, member, (eq_of_beq same).symm⟩

end IdlFrontEnd.FileStore
