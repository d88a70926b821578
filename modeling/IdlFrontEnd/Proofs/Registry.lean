import IdlFrontEnd.Build
import IdlFrontEnd.Preprocessed
import IdlFrontEnd.Proofs.Declaration
import IdlFrontEnd.Proofs.Diagnostic

/-!
# What the registry answers

A name is found only if it is that of a built-in type or of a record. No record ever has an empty
canonical name: a parsed type has a name, and a line of a preprocessed file without one is
malformed. An empty name would be found and yet not count as found.
-/
namespace IdlFrontEnd

theorem canonicalName_ne_empty (package : List String) {name : String} (h : name ≠ "") :
    canonicalName package name ≠ "" := by
  unfold canonicalName
  split
  · exact h
  · simp

/-- A canonical name is that of one record only. -/
theorem TypeRecord.Ascending.find?_of_mem {xs : List TypeRecord} (sorted : Ascending xs)
    {r : TypeRecord} (member : r ∈ xs) : xs.find? (·.canonical = r.canonical) = some r := by
  induction xs with
  | nil => cases member
  | cons x xs ih =>
    obtain ⟨below, rest⟩ := List.pairwise_cons.1 sorted
    rcases List.mem_cons.1 member with rfl | later
    · exact List.find?_cons_of_pos (by simp)
    · have other : x.canonical ≠ r.canonical := Std.ne_of_lt (below r later)
      rw [List.find?_cons_of_neg (by simpa using other), ih rest later]

theorem TypeRecord.sublist_insertInto (r : TypeRecord) (xs : List TypeRecord) :
    xs.Sublist (r.insertInto xs) := by
  induction xs with
  | nil => exact List.nil_sublist _
  | cons x xs ih =>
    rw [insertInto]
    split
    · exact List.sublist_cons_self r (x :: xs)
    · exact ih.cons_cons x

namespace Table

/-- The records determine the second index. -/
theorem ext_records {t u : Table} (same : t.records = u.records) : t = u := by
  obtain ⟨records, aliases, ascending, indexed⟩ := t
  obtain ⟨others, aliases', ascending', indexed'⟩ := u
  obtain rfl : records = others := same
  obtain rfl : aliases = aliases' := by
    funext simple
    rw [indexed, indexed']
  rfl

theorem add?_eq_some_iff {t next : Table} {r : TypeRecord} :
    t.add? r = some next ↔
      (∀ x ∈ t.records, x.canonical ≠ r.canonical) ∧ next.records = r.insertInto t.records := by
  unfold add?
  split
  next fresh =>
    rw [Option.some.injEq]
    constructor
    · intro same
      exact ⟨fresh, by rw [← same]⟩
    · intro h
      exact ext_records h.2.symm
  next taken => simp [taken]

theorem mem_add? {t next : Table} {r x : TypeRecord} (h : t.add? r = some next) :
    x ∈ next.records ↔ x = r ∨ x ∈ t.records := by
  rw [(add?_eq_some_iff.1 h).2]
  exact TypeRecord.mem_insertInto

theorem sublist_add? {t next : Table} {r : TypeRecord} (h : t.add? r = some next) :
    t.records.Sublist next.records := by
  rw [(add?_eq_some_iff.1 h).2]
  exact TypeRecord.sublist_insertInto r t.records

theorem mem_of_find? {t : Table} {name : String} {r : TypeRecord} (h : t.find? name = some r) :
    r ∈ t.records := List.mem_of_find?_eq_some h

theorem find?_eq_some_iff {t : Table} {name : String} {r : TypeRecord} :
    t.find? name = some r ↔ r ∈ t.records ∧ r.canonical = name := by
  constructor
  · intro h
    exact ⟨mem_of_find? h, by simpa using List.find?_some h⟩
  · rintro ⟨member, rfl⟩
    exact t.ascending.find?_of_mem member

/-- The second index leads to the first record of a simple name. -/
theorem alias?_eq_find? (t : Table) (name : String) :
    t.alias? name = t.records.find? (·.name = name) := by
  rw [alias?, t.indexed, List.head?_map, List.head?_filter]
  cases found : t.records.find? (·.name = name) with
  | none => rfl
  | some r => exact find?_eq_some_iff.2 ⟨List.mem_of_find?_eq_some found, rfl⟩

theorem mem_of_alias? {t : Table} {name : String} {r : TypeRecord} (h : t.alias? name = some r) :
    r ∈ t.records := by
  rw [alias?_eq_find?] at h
  exact List.mem_of_find?_eq_some h

end Table

namespace Registry

/-- The name is that of a built-in type or the canonical name of a record. -/
def Knows (g : Registry) (name : String) : Prop :=
  name ∈ builtins ∨ ∃ r ∈ g.records, r.canonical = name

/-- No record has an empty canonical name. -/
def Named (g : Registry) : Prop := ∀ r ∈ g.records, r.canonical ≠ ""

theorem empty_named : empty.Named := by
  intro r member
  cases member

theorem mem_of_lookup? {g : Registry} {name : String} {r : TypeRecord}
    (h : g.lookup? name = some r) : r ∈ g.records := by
  simp only [lookup?, Option.orElse_eq_orElse, Option.orElse_eq_or, Option.or_eq_some_iff] at h
  unfold records
  rcases h with h | ⟨-, h | ⟨-, h | ⟨-, h⟩⟩⟩
  · exact List.mem_append_left _ (Table.mem_of_find? h)
  · exact List.mem_append_right _ (Table.mem_of_find? h)
  · exact List.mem_append_left _ (Table.mem_of_alias? h)
  · exact List.mem_append_right _ (Table.mem_of_alias? h)

/-- A name is found as soon as a record has it as its canonical or its simple name. -/
theorem lookup?_isSome_iff {g : Registry} {name : String} :
    (g.lookup? name).isSome = true ↔ ∃ r ∈ g.records, r.canonical = name ∨ r.name = name := by
  constructor
  · intro found
    obtain ⟨r, h⟩ := Option.isSome_iff_exists.1 found
    refine ⟨r, mem_of_lookup? h, ?_⟩
    simp only [lookup?, Option.orElse_eq_orElse, Option.orElse_eq_or, Option.or_eq_some_iff,
      Table.alias?_eq_find?] at h
    rcases h with h | ⟨-, h | ⟨-, h | ⟨-, h⟩⟩⟩
    · exact .inl (by simpa using List.find?_some h)
    · exact .inl (by simpa using List.find?_some h)
    · exact .inr (by simpa using List.find?_some h)
    · exact .inr (by simpa using List.find?_some h)
  · rintro ⟨r, member, named⟩
    simp only [lookup?, Option.orElse_eq_orElse, Option.orElse_eq_or, Option.isSome_or,
      Bool.or_eq_true, Table.alias?_eq_find?]
    unfold Table.find?
    simp only [List.find?_isSome, decide_eq_true_eq]
    rcases List.mem_append.1 member with member | member <;> rcases named with named | named
    · exact .inl ⟨r, member, named⟩
    · exact .inr (.inr (.inl ⟨r, member, named⟩))
    · exact .inr (.inl ⟨r, member, named⟩)
    · exact .inr (.inr (.inr ⟨r, member, named⟩))

theorem isSome_lookup?_of_subset {g next : Registry} (kept : g.records ⊆ next.records)
    {name : String} (found : (g.lookup? name).isSome = true) :
    (next.lookup? name).isSome = true := by
  obtain ⟨r, member, named⟩ := lookup?_isSome_iff.1 found
  exact lookup?_isSome_iff.2 ⟨r, kept member, named⟩

/-- Whatever the imports are, an answer is a known name. -/
theorem knows_of_canonical? {g : Registry} {imports : List String} {written name : String}
    (h : g.canonical? imports written = some name) : g.Knows name := by
  unfold canonical? at h
  split at h
  next builtin =>
    cases h
    exact .inl (of_decide_eq_true builtin)
  · obtain ⟨r, found, rfl⟩ := Option.map_eq_some_iff.1 h
    refine .inr ⟨r, ?_, rfl⟩
    simp only [Option.orElse_eq_orElse, Option.orElse_eq_or, Option.or_eq_some_iff] at found
    rcases found with found | ⟨-, found⟩
    · obtain ⟨name, -, found⟩ := List.exists_of_findSome?_eq_some found
      exact mem_of_lookup? found
    · exact mem_of_lookup? found

theorem Named.knows_ne_empty {g : Registry} (named : g.Named) {name : String}
    (h : g.Knows name) : name ≠ "" := by
  rcases h with builtin | ⟨r, member, rfl⟩
  · rintro rfl
    simp [builtins] at builtin
  · exact named r member

theorem Named.canonical?_proper {g : Registry} (named : g.Named) (imports : List String) :
    TypeExpr.Proper (g.canonical? imports) :=
  fun _ _ found => named.knows_ne_empty (knows_of_canonical? found)

/-! ## Adding records -/

theorem Named.addDefined? {g next : Registry} {r : TypeRecord} (named : g.Named)
    (own : r.canonical ≠ "") (h : g.addDefined? r = some next) : next.Named := by
  obtain ⟨table, added, rfl⟩ := Option.map_eq_some_iff.1 h
  intro x member
  rcases List.mem_append.1 member with member | member
  · rcases (Table.mem_add? added).1 member with rfl | member
    · exact own
    · exact named x (List.mem_append_left _ member)
  · exact named x (List.mem_append_right _ member)

theorem Named.addPreprocessed? {g next : Registry} {r : TypeRecord} (named : g.Named)
    (own : r.canonical ≠ "") (h : g.addPreprocessed? r = some next) : next.Named := by
  obtain ⟨table, added, rfl⟩ := Option.map_eq_some_iff.1 h
  intro x member
  rcases List.mem_append.1 member with member | member
  · exact named x (List.mem_append_left _ member)
  · rcases (Table.mem_add? added).1 member with rfl | member
    · exact own
    · exact named x (List.mem_append_right _ member)

theorem Named.declare {g : Registry} {ds : List Declaration} (named : g.Named)
    (each : ∀ d ∈ ds, d.name ≠ "") : (g.declare ds).1.Named := by
  induction ds generalizing g with
  | nil => exact named
  | cons d ds ih =>
    have others := fun e member => each e (List.mem_cons_of_mem d member)
    have own : (TypeRecord.ofDeclaration d).canonical ≠ "" :=
      canonicalName_ne_empty _ (each d List.mem_cons_self)
    unfold Registry.declare
    cases added : g.addDefined? (.ofDeclaration d) with
    | some next => exact ih (named.addDefined? own added) others
    | none => exact ih named others

theorem mem_addDefined? {g next : Registry} {r x : TypeRecord} (h : g.addDefined? r = some next) :
    x ∈ next.records ↔ x = r ∨ x ∈ g.records := by
  obtain ⟨table, added, rfl⟩ := Option.map_eq_some_iff.1 h
  simp only [records, List.mem_append, Table.mem_add? added, or_assoc]

theorem mem_addPreprocessed? {g next : Registry} {r x : TypeRecord}
    (h : g.addPreprocessed? r = some next) : x ∈ next.records ↔ x = r ∨ x ∈ g.records := by
  obtain ⟨table, added, rfl⟩ := Option.map_eq_some_iff.1 h
  simp only [records, List.mem_append, Table.mem_add? added]
  exact or_left_comm

/-- No record of a parsed type is taken out or changed, and the preprocessed types are the same. -/
structure GrowsTo (g next : Registry) : Prop where
  defined : g.defined.records.Sublist next.defined.records
  preprocessed : next.preprocessed = g.preprocessed

theorem GrowsTo.refl (g : Registry) : g.GrowsTo g := ⟨.refl _, rfl⟩

theorem GrowsTo.trans {g mid last : Registry} (first : g.GrowsTo mid) (second : mid.GrowsTo last) :
    g.GrowsTo last :=
  ⟨first.defined.trans second.defined, second.preprocessed.trans first.preprocessed⟩

theorem GrowsTo.subset {g next : Registry} (grows : g.GrowsTo next) :
    g.records ⊆ next.records := by
  unfold records
  rw [grows.preprocessed]
  exact (grows.defined.append_right _).subset

theorem addDefined?_grows {g next : Registry} {r : TypeRecord} (h : g.addDefined? r = some next) :
    g.GrowsTo next := by
  obtain ⟨table, added, rfl⟩ := Option.map_eq_some_iff.1 h
  exact ⟨Table.sublist_add? added, rfl⟩

theorem declare_grows (g : Registry) (ds : List Declaration) : g.GrowsTo (g.declare ds).1 := by
  induction ds generalizing g with
  | nil => exact .refl g
  | cons d ds ih =>
    unfold declare
    cases added : g.addDefined? (.ofDeclaration d) with
    | none => exact ih g
    | some next => exact (addDefined?_grows added).trans (ih next)

/-- Every record was there before or is that of one of the types. -/
theorem of_mem_declare {g : Registry} {ds : List Declaration} {r : TypeRecord}
    (member : r ∈ (g.declare ds).1.records) :
    r ∈ g.records ∨ ∃ d ∈ ds, r = .ofDeclaration d := by
  induction ds generalizing g with
  | nil => exact .inl member
  | cons d ds ih =>
    unfold declare at member
    cases added : g.addDefined? (.ofDeclaration d) with
    | none =>
      rw [added] at member
      rcases ih member with old | ⟨e, inside, same⟩
      · exact .inl old
      · exact .inr ⟨e, List.mem_cons_of_mem d inside, same⟩
    | some next =>
      rw [added] at member
      rcases ih member with old | ⟨e, inside, same⟩
      · rcases (mem_addDefined? added).1 old with own | old
        · exact .inr ⟨d, List.mem_cons_self, own⟩
        · exact .inl old
      · exact .inr ⟨e, List.mem_cons_of_mem d inside, same⟩

/-- Types that are added in silence all have a record afterwards. -/
theorem mem_declare {g : Registry} {ds : List Declaration} (silent : (g.declare ds).2 = [])
    {d : Declaration} (member : d ∈ ds) :
    TypeRecord.ofDeclaration d ∈ (g.declare ds).1.records := by
  induction ds generalizing g with
  | nil => cases member
  | cons e ds ih =>
    unfold declare at silent ⊢
    cases added : g.addDefined? (.ofDeclaration e) with
    | none =>
      rw [added] at silent
      cases silent
    | some next =>
      rw [added] at silent
      rcases List.mem_cons.1 member with rfl | member
      · exact (next.declare_grows ds).subset ((mem_addDefined? added).2 (.inl rfl))
      · exact ih silent member

theorem declare_errors (g : Registry) (ds : List Declaration) : AllErrors (g.declare ds).2 := by
  induction ds generalizing g with
  | nil => exact .nil
  | cons d ds ih =>
    unfold declare
    cases g.addDefined? (.ofDeclaration d) with
    | some next => exact ih next
    | none => exact .cons rfl (ih g)

end Registry

namespace Preprocessed

theorem recordOf?_named {kind : Kind} {qualified : String} {r : TypeRecord}
    (h : recordOf? kind qualified = some r) : r.canonical ≠ "" := by
  unfold recordOf? at h
  dsimp only at h
  split at h
  · cases h
  · cases h
  next name last _ =>
    cases h
    exact canonicalName_ne_empty _ last

theorem parseLine?_named {line : String} {r : TypeRecord} (h : parseLine? line = some r) :
    r.canonical ≠ "" := by
  unfold parseLine? at h
  obtain ⟨body, -, h⟩ := Option.bind_eq_some_iff.1 h
  split at h
  · obtain ⟨kind, -, h⟩ := Option.bind_eq_some_iff.1 h
    exact recordOf?_named h
  · cases h

theorem addLines_named {file : String} {number : UInt32} {g : Registry} {lines : List String}
    (named : g.Named) : (addLines file number g lines).1.Named := by
  induction lines generalizing number g with
  | nil => exact named
  | cons line lines ih =>
    unfold addLines
    split
    · exact ih named
    · split
      next r parsed =>
        cases added : g.addPreprocessed? r with
        | none => exact ih named
        | some next => exact ih (named.addPreprocessed? (parseLine?_named parsed) added)
      · exact named

/-- Every record was there before or is that of one of the lines. -/
theorem of_mem_addLines {file : String} {number : UInt32} {g : Registry} {lines : List String}
    {r : TypeRecord} (member : r ∈ (addLines file number g lines).1.records) :
    r ∈ g.records ∨ ∃ line ∈ lines, parseLine? line = some r := by
  induction lines generalizing number g with
  | nil => exact .inl member
  | cons line lines ih =>
    have later {h : Registry} (inside : r ∈ (addLines file (number + 1) h lines).1.records) :
        r ∈ h.records ∨ ∃ l ∈ line :: lines, parseLine? l = some r := by
      rcases ih inside with old | ⟨l, below, own⟩
      · exact .inl old
      · exact .inr ⟨l, List.mem_cons_of_mem line below, own⟩
    unfold addLines at member
    split at member
    · exact later member
    · split at member
      next x parsed =>
        cases added : g.addPreprocessed? x with
        | none =>
          rw [added] at member
          exact later member
        | some next =>
          rw [added] at member
          rcases later member with old | listed
          · rcases (Registry.mem_addPreprocessed? added).1 old with rfl | old
            · exact .inr ⟨line, List.mem_cons_self, parsed⟩
            · exact .inl old
          · exact .inr listed
      · exact .inl member

theorem of_mem_readAll {provider : SourceProvider} {paths : List String} {c : Context}
    {r : TypeRecord} (member : r ∈ (readAll provider paths c).2.registry.records) :
    r ∈ c.registry.records ∨ ∃ path ∈ paths, ∃ text, provider.read path = .ok text ∧
      ∃ line ∈ Text.lines text, parseLine? line = some r := by
  induction paths generalizing c with
  | nil => exact .inl member
  | cons path paths ih =>
    rcases ih (c := (read provider path c).2) member with old | ⟨p, inside, listed⟩
    · unfold read at old
      cases found : provider.read path with
      | error e =>
        rw [found] at old
        exact .inl old
      | ok text =>
        rw [found] at old
        rcases of_mem_addLines old with old | listed
        · exact .inl old
        · exact .inr ⟨path, List.mem_cons_self, text, found, listed⟩
    · exact .inr ⟨p, List.mem_cons_of_mem path inside, listed⟩

theorem addLines_errors (file : String) (number : UInt32) (g : Registry) (lines : List String) :
    AllErrors (addLines file number g lines).2.toList := by
  induction lines generalizing number g with
  | nil => exact .nil
  | cons line lines ih =>
    unfold addLines
    split
    · exact ih _ _
    · split
      · exact ih _ _
      · exact .single rfl

end Preprocessed

end IdlFrontEnd
