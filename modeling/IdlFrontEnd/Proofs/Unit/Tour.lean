import IdlFrontEnd.Proofs.Unit.Encounter
import IdlFrontEnd.Proofs.Unit.Loaded
import Mathlib.Data.List.Perm.Basic

/-!
# All imports of a unit

The walk numbers files in the order in which it opens them, while a unit holds them as a tree, each
under the import that it was opened for. Going through the tree meets exactly the imports of all
stops of the walk, each once: the links of the stops lead to every file but the first, and to none
twice, so no document is lost and none is attached in two places.
-/
namespace IdlFrontEnd

mutual
/-- An import, then all imports in the document that is attached to it. -/
def LoadedImport.tour : LoadedImport → List LoadedImport
  | ⟨statement, file, none⟩ => [⟨statement, file, none⟩]
  | ⟨statement, file, some ⟨types, imports⟩⟩ =>
    ⟨statement, file, some ⟨types, imports⟩⟩ :: LoadedImport.tourAll imports

/-- All imports among these and below them. -/
def LoadedImport.tourAll : List LoadedImport → List LoadedImport
  | [] => []
  | i :: is => i.tour ++ tourAll is
end

namespace LoadedImport

theorem tour_eq (i : LoadedImport) :
    i.tour = i :: (i.document.map fun d => tourAll d.imports).getD [] := by
  obtain ⟨statement, file, document⟩ := i
  cases document with
  | none => simp [tour, document]
  | some d =>
    obtain ⟨types, imports⟩ := d
    simp [tour, document, LoadedDocument.imports]

theorem tourAll_eq_flatMap (is : List LoadedImport) : tourAll is = is.flatMap tour := by
  induction is with
  | nil => rfl
  | cons i is ih => simp [tourAll, ih]

theorem mem_tourAll_of_mem {is : List LoadedImport} {i : LoadedImport} (member : i ∈ is) :
    i ∈ tourAll is := by
  rw [tourAll_eq_flatMap, List.mem_flatMap]
  refine ⟨i, member, ?_⟩
  rw [tour_eq]
  exact List.mem_cons_self

/-- What the tour of an attached document meets, the tour of the imports above it meets too. -/
theorem tourAll_subset {is : List LoadedImport} {i : LoadedImport} {d : LoadedDocument}
    (member : i ∈ is) (held : i.document = some d) : tourAll d.imports ⊆ tourAll is := by
  intro j inside
  rw [tourAll_eq_flatMap is, List.mem_flatMap]
  refine ⟨i, member, ?_⟩
  rw [tour_eq, held]
  exact List.mem_cons_of_mem i inside

theorem mem_tourAll_of_attached {is : List LoadedImport} {i : LoadedImport} {d : LoadedDocument}
    (attached : Attached is d) (member : i ∈ d.imports) : i ∈ tourAll is := by
  induction attached with
  | direct outside held => exact tourAll_subset outside held (mem_tourAll_of_mem member)
  | deeper outside held _ ih => exact tourAll_subset outside held (ih member)

mutual
theorem place_of_mem_tour {j : LoadedImport} :
    ∀ i : LoadedImport, j ∈ i.tour → j = i ∨ ∃ d, Attached [i] d ∧ j ∈ d.imports
  | ⟨statement, file, none⟩, member => .inl (List.mem_singleton.1 member)
  | ⟨statement, file, some ⟨types, imports⟩⟩, member => by
    rcases List.mem_cons.1 member with rfl | member
    · exact .inl rfl
    · right
      rcases place_of_mem_tourAll imports member with own | ⟨d, attached, inside⟩
      · exact ⟨⟨types, imports⟩, .direct List.mem_cons_self rfl, own⟩
      · exact ⟨d, .deeper List.mem_cons_self rfl attached, inside⟩

theorem place_of_mem_tourAll {j : LoadedImport} :
    ∀ is : List LoadedImport, j ∈ tourAll is → j ∈ is ∨ ∃ d, Attached is d ∧ j ∈ d.imports
  | i :: is, member => by
    rcases List.mem_append.1 member with member | member
    · rcases place_of_mem_tour i member with rfl | ⟨d, attached, inside⟩
      · exact .inl List.mem_cons_self
      · refine .inr ⟨d, attached.mono ?_, inside⟩
        simp
    · rcases place_of_mem_tourAll is member with own | ⟨d, attached, inside⟩
      · exact .inl (List.mem_cons_of_mem i own)
      · exact .inr ⟨d, attached.mono (List.subset_cons_self i is), inside⟩
end

/-- The tour goes through the given imports and those of all documents attached below them. -/
theorem mem_tourAll_iff {is : List LoadedImport} {i : LoadedImport} :
    i ∈ tourAll is ↔ i ∈ is ∨ ∃ d, Attached is d ∧ i ∈ d.imports := by
  constructor
  · exact place_of_mem_tourAll is
  · rintro (member | ⟨d, attached, member⟩)
    · exact mem_tourAll_of_mem member
    · exact mem_tourAll_of_attached attached member

end LoadedImport

namespace ImportWalk

open scoped List

/-- The imports of a document, if there is one. -/
def importsIn (d : Option LoadedDocument) : List LoadedImport :=
  (d.map LoadedDocument.imports).getD []

/-- The imports of a document and below it, if there is one. -/
def tourIn (d : Option LoadedDocument) : List LoadedImport := LoadedImport.tourAll (importsIn d)

theorem tour_eq_tourIn (i : LoadedImport) : i.tour = i :: tourIn i.document := by
  rw [LoadedImport.tour_eq]
  cases i.document <;> rfl

theorem tourIn_perm (d : Option LoadedDocument) :
    importsIn d ++ (importsIn d).flatMap (tourIn ·.document) ~ tourIn d := by
  have split := List.map_append_flatMap_perm (importsIn d) id (tourIn ·.document)
  rw [List.map_id] at split
  have tour : tourIn d = (importsIn d).flatMap fun i => i :: tourIn i.document := by
    unfold tourIn
    rw [LoadedImport.tourAll_eq_flatMap, funext tour_eq_tourIn]
    rfl
  rw [tour]
  exact split

/-! ## The documents of the stops -/

/-- The document of a stop, joined to those of the stops from number `first` on. -/
def Stop.joined (stop : Stop) (first : Nat) (later : List (Option LoadedDocument)) :
    Option LoadedDocument :=
  stop.build.document.map fun d =>
    ⟨d.types, stop.joints.map fun pair => pair.2.joined first later pair.1⟩

theorem documents_cons (stop : Stop) (first : Nat) (stops : List Stop) :
    documents first (stop :: stops) =
      stop.joined (first + 1) (documents (first + 1) stops) :: documents (first + 1) stops := by
  rw [documents]
  unfold Stop.joined Stop.joints FileBuild.imports FileBuild.takeDocument
  cases stop.build.document <;> rfl

theorem importsIn_joined (stop : Stop) (first : Nat) (later : List (Option LoadedDocument)) :
    importsIn (stop.joined first later) =
      stop.joints.map fun pair => pair.2.joined first later pair.1 := by
  unfold Stop.joined Stop.joints FileBuild.imports
  cases stop.build.document <;> rfl

/-- What is attached to the imports of a stop are the documents that its links lead to. -/
theorem flatMap_attached {stop : Stop}
    (whole : stop.build.imports.length = stop.links.length) (first : Nat)
    (later : List (Option LoadedDocument)) :
    (importsIn (stop.joined first later)).flatMap (tourIn ·.document) =
      (stop.links.filterMap Link.target).flatMap fun n => tourIn later[n - first]?.join := by
  have links : stop.links = stop.joints.map Prod.snd :=
    (List.map_snd_zip (Nat.le_of_eq whole.symm)).symm
  rw [importsIn_joined, links]
  induction stop.joints with
  | nil => rfl
  | cons pair pairs ih =>
    rw [List.map_cons, List.flatMap_cons, ih, List.map_cons]
    cases target : pair.2.target with
    | none =>
      rw [List.filterMap_cons_none target]
      simp [Link.joined, LoadedImport.document, target, tourIn, importsIn, LoadedImport.tourAll]
    | some n =>
      rw [List.filterMap_cons_some target]
      simp [Link.joined, LoadedImport.document, target]

/-- Links that lead on in order lead to a part of the documents. -/
theorem flatMap_range' (later : List (Option LoadedDocument)) {first next : Nat}
    (bound : first ≤ next) (count : Nat) :
    ((List.range' next count).flatMap fun n => tourIn later[n - first]?.join) =
      ((later.drop (next - first)).take count).flatMap tourIn := by
  induction count generalizing next with
  | zero => simp
  | succ count ih =>
    rw [List.range'_succ, List.flatMap_cons, ih (Nat.le_succ_of_le bound), Nat.succ_sub bound]
    cases found : later[next - first]? with
    | none =>
      have short := List.getElem?_eq_none_iff.1 found
      rw [List.drop_of_length_le short, List.drop_of_length_le (Nat.le_succ_of_le short)]
      simp [tourIn, importsIn, LoadedImport.tourAll]
    | some d =>
      obtain ⟨inside, rfl⟩ := List.getElem?_eq_some_iff.1 found
      rw [List.drop_eq_getElem_cons inside, List.take_succ_cons, List.flatMap_cons]
      rfl

/-- The imports of all stops are those that are met below the documents that no link leads to. -/
theorem documents_perm {first next : Nat} {stops : List Stop}
    (consecutive : Consecutive first next stops) :
    (documents first stops).flatMap importsIn ~
      ((documents first stops).take (next - first)).flatMap tourIn := by
  induction consecutive with
  | nil => simp [documents]
  | @cons first next count stop stops waited whole targets others ih =>
    rw [documents_cons]
    generalize documents (first + 1) stops = later at ih ⊢
    have bound : first + 1 ≤ next := waited
    have roots : next - first = (next - (first + 1)) + 1 := by omega
    have grown : next + count - (first + 1) = (next - (first + 1)) + count := by omega
    have own := tourIn_perm (stop.joined (first + 1) later)
    rw [flatMap_attached whole, targets, flatMap_range' later bound] at own
    rw [grown, List.take_add, List.flatMap_append] at ih
    rw [roots, List.take_succ_cons, List.flatMap_cons, List.flatMap_cons]
    generalize List.flatMap tourIn (List.take count (later.drop (next - (first + 1)))) = opened
      at own ih
    generalize List.flatMap tourIn (List.take (next - (first + 1)) later) = waiting at ih ⊢
    generalize importsIn (stop.joined (first + 1) later) = imports at own ⊢
    calc imports ++ later.flatMap importsIn
      _ ~ imports ++ (waiting ++ opened) := ih.append_left imports
      _ ~ imports ++ (opened ++ waiting) := List.perm_append_comm.append_left imports
      _ ~ imports ++ opened ++ waiting := .of_eq (List.append_assoc ..).symm
      _ ~ tourIn (stop.joined (first + 1) later) ++ waiting := own.append_right waiting

/-- A link that leads past the stop at number `first` leads to the same document whether the search
starts at that stop or behind it. -/
theorem joined_cons {link : Link} {first : Nat} (beyond : ∀ n ∈ link.target, first < n)
    (d : Option LoadedDocument) (later : List (Option LoadedDocument))
    (statement : ImportStatement) :
    link.joined (first + 1) later statement = link.joined first (d :: later) statement := by
  unfold Link.joined
  cases target : link.target with
  | none => rfl
  | some n =>
    have bound := beyond n target
    have place : n - first = (n - (first + 1)) + 1 := by omega
    simp [place]

theorem Consecutive.le_target {first next : Nat} {stops : List Stop}
    (consecutive : Consecutive first next stops) {stop : Stop} (member : stop ∈ stops) :
    stop.build.imports.length = stop.links.length ∧
      ∀ link ∈ stop.links, ∀ n ∈ link.target, next ≤ n := by
  induction consecutive with
  | nil => cases member
  | cons waited whole targets others ih =>
    rcases List.mem_cons.1 member with rfl | member
    · refine ⟨whole, ?_⟩
      intro link inside n leads
      have found : n ∈ stop.links.filterMap Link.target := List.mem_filterMap.2 ⟨link, inside, leads⟩
      rw [targets] at found
      exact (List.mem_range'_1.1 found).1
    · obtain ⟨whole, beyond⟩ := ih member
      refine ⟨whole, ?_⟩
      intro link inside n leads
      have bound := beyond link inside n leads
      omega

/-- The imports of all stops, each with the document that its link leads to. -/
theorem imports_eq {first next : Nat} {stops : List Stop}
    (consecutive : Consecutive first next stops) :
    (documents first stops).flatMap importsIn =
      (stops.flatMap Stop.joints).map fun pair =>
        pair.2.joined first (documents first stops) pair.1 := by
  induction consecutive with
  | nil => rfl
  | @cons first next count stop stops waited whole targets others ih =>
    have all : Consecutive first next (stop :: stops) := .cons waited whole targets others
    have same : ∀ pair ∈ (stop :: stops).flatMap Stop.joints,
        pair.2.joined (first + 1) (documents (first + 1) stops) pair.1 =
          pair.2.joined first (documents first (stop :: stops)) pair.1 := by
      intro pair member
      obtain ⟨own, inside, member⟩ := List.mem_flatMap.1 member
      have bound := (all.le_target inside).2 pair.2 (List.of_mem_zip member).2
      rw [documents_cons]
      apply joined_cons
      intro n leads
      exact Nat.lt_of_lt_of_le waited (bound n leads)
    rw [← List.map_congr_left same, documents_cons, List.flatMap_cons, List.flatMap_cons,
      List.map_append, importsIn_joined, ih]

/-- Each stop has its own document in its place. -/
theorem documents_getElem? {stops : List Stop} {n : Nat} {stop : Stop}
    (found : stops[n]? = some stop) (first : Nat) :
    ∃ number later, (documents first stops)[n]? = some (stop.joined number later) := by
  induction stops generalizing n first with
  | nil => cases found
  | cons other stops ih =>
    rw [documents_cons]
    cases n with
    | zero =>
      cases found
      exact ⟨first + 1, _, rfl⟩
    | succ n => exact ih found (first + 1)

/-- The document of a stop has the types and the imports of its file. -/
theorem joined_of_held {stop : Stop} {d : Document} (held : stop.build.document = some d)
    (whole : stop.build.imports.length = stop.links.length) (first : Nat)
    (later : List (Option LoadedDocument)) :
    ∃ document, stop.joined first later = some document ∧ document.types = d.types ∧
      document.imports.map LoadedImport.statement = d.imports := by
  refine ⟨⟨d.types, stop.joints.map fun pair => pair.2.joined first later pair.1⟩, ?_, rfl, ?_⟩
  · unfold Stop.joined
    rw [held]
    rfl
  · have written : stop.joints.map Prod.fst = stop.build.imports :=
      List.map_fst_zip (Nat.le_of_eq whole)
    have own : stop.build.imports = d.imports := by simp [FileBuild.imports, held]
    rw [← own, ← written]
    simp [LoadedDocument.imports, Link.joined, LoadedImport.statement]

end ImportWalk

end IdlFrontEnd
