import IdlFrontEnd.Proofs.BuildOrder
import IdlFrontEnd.Proofs.Unit.Tour
import IdlFrontEnd.Proofs.Unit.WalkBound
import Mathlib.Data.List.Nodup
import Mathlib.Data.List.Perm.Subperm

/-!
# The closure of the imports

In which order imports are followed decides which one a file is opened for. If every class that
imports ask for is answered by the file that it leads to and by no other, the order decides nothing
else: the walk is clean exactly if the files that the classes lead to can be declared together, each
in its place, and then it has opened these files and no others.
-/
namespace IdlFrontEnd

/-- The class is the canonical or the simple name of a type in the file. -/
def Grammar.SourceFile.Answers (file : Grammar.SourceFile) (className : String) : Prop :=
  ∃ d ∈ file.types, d.canonical = className ∨ d.name = className

/-- The classes that the file imports. -/
def FileBuild.classes (b : FileBuild) : List String := b.imports.map ImportStatement.className

namespace ImportWalk

open Grammar (SourceFile)

open scoped List

section
variable (provider : SourceProvider) (options : Options) (path : String) (g : Registry)

/-- A class that is not known leads to the file in which it should be declared, unless that is the
file of the walk itself. -/
structure Leads (className target : String) : Prop where
  unknown : g.lookup? className = none
  found : ImportSearch.file? provider options className = some target
  other : identity provider target ≠ identity provider path

/-- A class that the first file imports, or a file that imports lead to. -/
inductive Wanted (classes : List String) : String → Prop
  | own {className : String} (member : className ∈ classes) : Wanted classes className
  | further {className target : String} {file : SourceFile} {i : ImportStatement}
      (wanted : Wanted classes className) (leads : Leads provider options path g className target)
      (read : SourceFile.read? provider target = some file) (member : i ∈ file.imports) :
      Wanted classes i.className

/-- Of the files that imports lead to, the one where a class should be declared answers to it and no
other does. -/
def OneFileEach (classes : List String) : Prop :=
  ∀ className, Wanted provider options path g classes className → g.lookup? className = none →
    ∀ other target file, Wanted provider options path g classes other →
      Leads provider options path g other target → SourceFile.read? provider target = some file →
      (file.Answers className ↔ ImportSearch.file? provider options className = some target)

/-- All files that imports lead to, each of them once, can be opened together. -/
structure ImportClosure (classes : List String) (files : List Pending) : Prop where
  distinct : (identity provider path :: files.map (identity provider ·.path)).Nodup
  opened : ∀ p ∈ files, FileBuild.opened? provider p.path = some p.build
  placed : ∀ p ∈ files, ∀ d ∈ p.build.types, d.placementNotes p.path = []
  led : ∀ p ∈ files, ∃ className, Wanted provider options path g classes className ∧
    Leads provider options path g className p.path
  reached : ∀ className, Wanted provider options path g classes className →
    g.lookup? className = none →
    ∃ p ∈ files, ImportSearch.file? provider options className = some p.path
  declared : (g.declare (files.flatMap (·.build.types))).2 = []

end

variable {provider : SourceProvider} {options : Options}

/-- The files that the walk opens without a mistake. -/
def openedFrom (provider : SourceProvider) (options : Options) (path : String) (build : FileBuild)
    (c : Context) : List Pending :=
  openings provider options (met provider options path build c)

/-! ## What stays true while imports are followed -/

section
variable {I : Walk → Prop} {J : ImportStatement → Prop}

theorem followAll_invariant
    (step : ∀ i w, J i → I w → I (stateAfter (follow provider options i w)))
    {is : List ImportStatement} (each : ∀ i ∈ is, J i) {w : Walk} (holds : I w) :
    (∀ e ∈ encountersWith provider options is w, J e.statement ∧ I e.before) ∧
      I (stateAfter (followAll provider options is w)) := by
  induction is generalizing w with
  | nil => exact ⟨by simp [encountersWith], holds⟩
  | cons i is ih =>
    have own := each i List.mem_cons_self
    obtain ⟨next, followed, -⟩ := follow_followed provider options ⟨i, w⟩
    have first := step i w own holds
    rw [show follow provider options i w = _ from followed] at first
    obtain ⟨others, last⟩ := ih (fun j member => each j (List.mem_cons_of_mem i member)) first
    obtain ⟨rest, hrest, -⟩ := followAll_course provider options is next
    rw [stateAfter, hrest] at last
    rw [encountersWith_cons provider options followed, followAll_cons followed hrest]
    refine ⟨?_, last⟩
    intro e member
    rcases List.mem_cons.1 member with rfl | member
    · exact ⟨own, holds⟩
    · exact others e member

/-- What every import that is allowed keeps true is true throughout a walk, as long as the files
that wait only have such imports. -/
theorem run_invariant
    (step : ∀ i w, J i → I w → I (stateAfter (follow provider options i w)))
    (take : ∀ w first pending, I w → w.pending = first :: pending →
      (∀ i ∈ first.build.imports, J i) ∧ I { w with pending }) (count : Nat) {w : Walk}
    (holds : I w) :
    (∀ e ∈ encounters provider options count w, J e.statement ∧ I e.before) ∧
      I (stateAfter (run provider options count w)) := by
  induction count generalizing w with
  | zero => exact ⟨by simp [encounters], holds⟩
  | succ count ih =>
    cases waiting : w.pending with
    | nil =>
      rw [encounters, run_of_ended waiting, waiting]
      exact ⟨by simp, holds⟩
    | cons first pending =>
      obtain ⟨allowed, taken⟩ := take w first pending holds waiting
      obtain ⟨own, between⟩ := followAll_invariant step allowed taken
      obtain ⟨mid, hlinks, -⟩ := followAll_course provider options first.build.imports
        { w with pending }
      rw [hlinks] at between
      obtain ⟨others, last⟩ := ih between
      obtain ⟨stops, next, hstops, -⟩ := run_course provider options count mid
      rw [stateAfter, hstops] at last
      rw [encounters_succ provider options waiting hlinks, run_of_waiting waiting hlinks hstops]
      exact ⟨fun e member => (List.mem_append.1 member).elim (own e) (others e), last⟩

end

/-! ## Only wanted files are opened -/

theorem read_of_opened {path : String} {b : FileBuild}
    (opened : FileBuild.opened? provider path = some b) :
    ∃ file, SourceFile.read? provider path = some file ∧ b.imports = file.imports ∧
      b.types = file.types := by
  obtain ⟨file, read, rfl⟩ := Option.map_eq_some_iff.1 opened
  exact ⟨file, read, rfl, rfl⟩

theorem opened_of_parse {c next : Context} {path : String} {b : FileBuild}
    (parsed : FileBuild.fresh.parse c provider path = (.ok (), b, next)) :
    FileBuild.opened? provider path = some b := by
  obtain ⟨file, read, rfl, -⟩ := FileBuild.parse_eq_ok_iff.1 parsed
  simp [FileBuild.opened?, read]

theorem unknown_of_subset {g h : Registry} (kept : g.records ⊆ h.records) {className : String}
    (unknown : h.lookup? className = none) : g.lookup? className = none := by
  rw [← Option.not_isSome_iff_eq_none] at unknown ⊢
  exact fun known => unknown (Registry.isSome_lookup?_of_subset kept known)

variable {path : String} {g : Registry} {classes : List String}

/-- What is true of a walk from a file with these imports whenever it comes to an import. -/
structure Following (provider : SourceProvider) (options : Options) (path : String) (g : Registry)
    (classes : List String) (w : Walk) : Prop where
  grown : g.records ⊆ w.context.registry.records
  started : identity provider path ∈ w.visited
  wanted : ∀ p ∈ w.pending, ∀ i ∈ p.build.imports,
    Wanted provider options path g classes i.className

theorem Following.leads {e : Encounter} (following : Following provider options path g classes e.before)
    {p : Pending} (opening : e.opening? provider options = some p) :
    Leads provider options path g e.statement.className p.path ∧
      FileBuild.opened? provider p.path = some p.build := by
  obtain ⟨opens, next, parsed⟩ := Encounter.opening?_eq_some_iff.1 opening
  obtain ⟨unknown, found, fresh⟩ := Encounter.opens?_eq_some_iff.1 opens
  refine ⟨⟨unknown_of_subset following.grown unknown, found, ?_⟩, opened_of_parse parsed⟩
  intro same
  rw [same] at fresh
  exact fresh following.started

theorem Following.step {i : ImportStatement} {w : Walk}
    (wanted : Wanted provider options path g classes i.className)
    (following : Following provider options path g classes w) :
    Following provider options path g classes (stateAfter (follow provider options i w)) := by
  obtain ⟨next, followed, effect⟩ := follow_followed provider options ⟨i, w⟩
  dsimp only at followed
  rw [followed]
  constructor
  · exact List.Subset.trans following.grown effect.kept
  · rw [stateAfter, effect.visited]
    exact List.mem_append_right _ following.started
  · rw [stateAfter, effect.pending]
    intro p member
    rcases List.mem_append.1 member with waited | opening
    · exact following.wanted p waited
    · obtain ⟨leads, opened⟩ := following.leads (e := ⟨i, w⟩) (Option.mem_toList.1 opening)
      obtain ⟨file, read, imports, -⟩ := read_of_opened opened
      rw [imports]
      intro j inside
      exact .further wanted leads read inside

theorem Following.take {w : Walk} {first : Pending} {pending : List Pending}
    (following : Following provider options path g classes w)
    (waiting : w.pending = first :: pending) :
    (∀ i ∈ first.build.imports, Wanted provider options path g classes i.className) ∧
      Following provider options path g classes { w with pending } := by
  have wanted := following.wanted
  rw [waiting] at wanted
  exact ⟨wanted first List.mem_cons_self, following.grown, following.started,
    fun p member => wanted p (List.mem_cons_of_mem first member)⟩

theorem Following.start (provider : SourceProvider) (options : Options) (path : String)
    (build : FileBuild) (c : Context) :
    Following provider options path c.registry build.classes (.start provider path build c) := by
  refine ⟨List.Subset.refl _, by simp [Walk.start], ?_⟩
  intro p member i inside
  rw [List.mem_singleton.1 member] at inside
  exact .own (List.mem_map_of_mem inside)

/-- Every class that the walk comes to is wanted. -/
theorem met_wanted {build : FileBuild} {c : Context} {e : Encounter}
    (member : e ∈ met provider options path build c) :
    Wanted provider options path c.registry build.classes e.statement.className ∧
      Following provider options path c.registry build.classes e.before := by
  have all := run_invariant (I := Following provider options path c.registry build.classes)
    (fun i w wanted following => following.step wanted)
    (fun w first pending following waiting => following.take waiting) (provider.limit + 1)
    (Following.start provider options path build c)
  exact all.1 e member

theorem leads_of_openedFrom {build : FileBuild} {c : Context} {p : Pending}
    (member : p ∈ openedFrom provider options path build c) :
    FileBuild.opened? provider p.path = some p.build ∧
      ∃ className, Wanted provider options path c.registry build.classes className ∧
        Leads provider options path c.registry className p.path := by
  obtain ⟨e, met, opening⟩ := List.mem_filterMap.1 member
  obtain ⟨wanted, following⟩ := met_wanted met
  obtain ⟨leads, opened⟩ := following.leads opening
  exact ⟨opened, _, wanted, leads⟩

/-! ## A clean walk opens the closure -/

section
variable {s : FileStore} {build : FileBuild} {c : Context} {stops : List Stop} {w : Walk}

/-- The stops of the walk are the first file and those that it opens. -/
theorem sources_of_walk (walked : ofFile s.provider options path build c = .ok stops w) :
    stops.map Stop.source = ⟨path, build⟩ :: openedFrom s.provider options path build c := by
  obtain ⟨_, _, again, course, -, -, ended⟩ := ofFile_course s options path build c
  cases walked.symm.trans again
  simpa [ended, Walk.start, openedFrom] using course.pending

/-- The walk comes to every import of these files. -/
theorem met_of_import {p : Pending}
    (member : p ∈ ⟨path, build⟩ :: openedFrom s.provider options path build c)
    {i : ImportStatement} (inside : i ∈ p.build.imports) :
    ∃ e ∈ met s.provider options path build c, e.statement = i := by
  obtain ⟨stops, w, walked, -, joints, consecutive, -⟩ := ofFile_course s options path build c
  rw [← sources_of_walk walked] at member
  obtain ⟨stop, there, rfl⟩ := List.mem_map.1 member
  have whole := (consecutive.le_target there).1
  have joint : i ∈ stop.joints.map Prod.fst := by
    unfold Stop.joints
    rwa [List.map_fst_zip (Nat.le_of_eq whole)]
  obtain ⟨pair, paired, rfl⟩ := List.mem_map.1 joint
  have all : pair ∈ stops.flatMap Stop.joints := List.mem_flatMap.2 ⟨stop, there, paired⟩
  rw [joints] at all
  obtain ⟨e, met, rfl⟩ := List.mem_map.1 all
  exact ⟨e, met, rfl⟩

/-- The types of the files that a clean walk opens are all that it adds. -/
theorem declared_of_clean (walked : ofFile s.provider options path build c = .ok stops w)
    (clean : w.clean = true) :
    c.registry.declare ((openedFrom s.provider options path build c).flatMap (·.build.types)) =
      (w.context.registry, []) := by
  obtain ⟨_, _, again, course, -⟩ := ofFile_course s options path build c
  cases walked.symm.trans again
  exact course.grown clean

/-- In a clean walk the file of a class that it comes to is opened, for this import or before. -/
theorem opened_of_met (clear : OneFileEach s.provider options path c.registry build.classes)
    (walked : ofFile s.provider options path build c = .ok stops w) (clean : w.clean = true)
    {e : Encounter} (member : e ∈ met s.provider options path build c)
    (unknown : c.registry.lookup? e.statement.className = none) :
    ∃ p ∈ openedFrom s.provider options path build c,
      ImportSearch.file? s.provider options e.statement.className = some p.path := by
  have declared := declared_of_clean walked clean
  obtain ⟨_, _, again, course, -⟩ := ofFile_course s options path build c
  cases walked.symm.trans again
  rcases (course.clean clean).2 e member with known | ⟨p, opening, -⟩
  · -- one of the opened files answers, and no other file than that of the class may
    have later := Registry.isSome_lookup?_of_subset (course.known e member).1 known
    obtain ⟨r, inside, answers⟩ := Registry.lookup?_isSome_iff.1 later
    rw [show w.context.registry = _ from (congrArg Prod.fst declared).symm] at inside
    rcases Registry.of_mem_declare inside with old | ⟨d, there, rfl⟩
    · have some := Registry.lookup?_isSome_iff.2 ⟨r, old, answers⟩
      rw [unknown] at some
      cases some
    · obtain ⟨p, opened, declares⟩ := List.mem_flatMap.1 there
      refine ⟨p, opened, ?_⟩
      obtain ⟨found, className, wanted, leads⟩ := leads_of_openedFrom opened
      obtain ⟨file, read, -, types⟩ := read_of_opened found
      rw [types] at declares
      have own := clear _ (met_wanted member).1 unknown className p.path file wanted leads read
      exact own.1 ⟨d, declares, answers⟩
  · have opens := (Encounter.opening?_eq_some_iff.1 opening).1
    exact ⟨p, List.mem_filterMap.2 ⟨e, member, opening⟩,
      (Encounter.opens?_eq_some_iff.1 opens).2.1⟩

/-- A clean walk comes to every class that is wanted. -/
theorem met_of_wanted (clear : OneFileEach s.provider options path c.registry build.classes)
    (walked : ofFile s.provider options path build c = .ok stops w) (clean : w.clean = true)
    {className : String}
    (wanted : Wanted s.provider options path c.registry build.classes className) :
    ∃ e ∈ met s.provider options path build c, e.statement.className = className := by
  induction wanted with
  | own member =>
    obtain ⟨i, inside, rfl⟩ := List.mem_map.1 member
    obtain ⟨e, met, rfl⟩ := met_of_import List.mem_cons_self inside
    exact ⟨e, met, rfl⟩
  | further _ leads read member ih =>
    obtain ⟨e, met, rfl⟩ := ih
    obtain ⟨p, opened, found⟩ := opened_of_met clear walked clean met leads.unknown
    cases leads.found.symm.trans found
    obtain ⟨file, own, imports, -⟩ := read_of_opened (leads_of_openedFrom opened).1
    cases read.symm.trans own
    rw [← imports] at member
    obtain ⟨e, met, rfl⟩ := met_of_import (List.mem_cons_of_mem _ opened) member
    exact ⟨e, met, rfl⟩

/-- What a clean walk opens is the closure of the imports. -/
theorem closure_of_clean (clear : OneFileEach s.provider options path c.registry build.classes)
    (walked : ofFile s.provider options path build c = .ok stops w) (clean : w.clean = true) :
    ImportClosure s.provider options path c.registry build.classes
      (openedFrom s.provider options path build c) := by
  have declared := declared_of_clean walked clean
  obtain ⟨_, _, again, course, -⟩ := ofFile_course s options path build c
  have same := walked.symm.trans again
  constructor
  case distinct =>
    have part := (openings_sublist s.provider options (met s.provider options path build c)).map
      (identity s.provider)
    rw [List.map_map] at part
    exact course.distinct.sublist (part.cons_cons _)
  case opened => exact fun p member => (leads_of_openedFrom member).1
  case led => exact fun p member => (leads_of_openedFrom member).2
  case placed =>
    cases same
    intro p member d inside
    obtain ⟨e, met, opening⟩ := List.mem_filterMap.1 member
    rcases (course.clean clean).2 e met with known | ⟨q, other, placed⟩
    · have opens := (Encounter.opening?_eq_some_iff.1 opening).1
      rw [(Encounter.opens?_eq_some_iff.1 opens).1] at known
      cases known
    · cases opening.symm.trans other
      exact placed d inside
  case reached =>
    intro className wanted unknown
    obtain ⟨e, met, rfl⟩ := met_of_wanted clear walked clean wanted
    exact opened_of_met clear walked clean met unknown
  case declared => rw [declared]

end

/-! ## With a closure the walk is clean -/

theorem follow_clean {e : Encounter} (settled : e.Settled provider options)
    (clean : e.before.clean = true) :
    (stateAfter (follow provider options e.statement e.before)).clean = true := by
  rcases settled with known | ⟨p, opening, placed⟩
  · obtain ⟨record, known⟩ := Option.isSome_iff_exists.1 known
    unfold follow
    rw [show e.before.context.registry.lookup? e.statement.className = some record from known]
    exact clean
  · obtain ⟨opens, next, parsed⟩ := Encounter.opening?_eq_some_iff.1 opening
    have silent : p.build.types.flatMap (·.placementNotes p.path) = [] :=
      List.flatMap_eq_nil_iff.2 placed
    rw [follow_of_opens opens]
    unfold openFor
    simp [parsed, stateAfter, Walk.add, silent, clean]

/-- A walk that has opened `done`, each of them one of the files of a closure, without a mistake. -/
structure Keeping (provider : SourceProvider) (path : String) (g : Registry)
    (files done : List Pending) (w : Walk) : Prop where
  clean : w.clean = true
  inside : done ⊆ files
  once : done.Nodup
  visited : ∀ key ∈ w.visited,
    key = identity provider path ∨ ∃ p ∈ done, key = identity provider p.path
  declared : g.declare (done.flatMap (·.build.types)) = (w.context.registry, [])

variable {files done : List Pending}

/-- Files that are opened one after the other from a closure never redefine a type. -/
theorem ImportClosure.next_silent (closure : ImportClosure provider options path g classes files)
    (once : done.Nodup) (inside : done ⊆ files) {p : Pending} (member : p ∈ files)
    (other : p ∉ done) {h : Registry}
    (declared : g.declare (done.flatMap (·.build.types)) = (h, [])) :
    ∃ next, h.declare p.build.types = (next, []) := by
  have both : (done ++ [p]).Nodup := once.append (List.nodup_singleton p) (by simpa using other)
  have within : done ++ [p] ⊆ files := by simp [inside, member]
  obtain ⟨part, same, sublist⟩ := both.subperm within
  obtain ⟨rest, all⟩ := sublist.exists_perm_append
  have all : files ~ done ++ [p] ++ rest := all.trans (same.append_right rest)
  have silent : g.declare (files.flatMap (·.build.types)) =
      ((g.declare (files.flatMap (·.build.types))).1, []) := by rw [← closure.declared]
  have parts := Registry.declare_perm (all.flatMap_right (·.build.types)) silent
  rw [List.flatMap_append, List.flatMap_append, Registry.declare_append_silent] at parts
  obtain ⟨mid, first, -⟩ := parts
  obtain ⟨h', own, last⟩ := Registry.declare_append_silent.1 first
  cases declared.symm.trans own
  exact ⟨mid, by simpa using last⟩

theorem Keeping.step (closure : ImportClosure provider options path g classes files)
    (clear : OneFileEach provider options path g classes) {i : ImportStatement} {w : Walk}
    (wanted : Wanted provider options path g classes i.className)
    (following : Following provider options path g classes w)
    (keeping : Keeping provider path g files done w) :
    ∃ more, Keeping provider path g files more (stateAfter (follow provider options i w)) := by
  cases known : w.context.registry.lookup? i.className with
  | some record =>
    refine ⟨done, ?_⟩
    unfold follow
    rw [known]
    exact keeping
  | none =>
    have unknown := unknown_of_subset following.grown known
    obtain ⟨p, member, found⟩ := closure.reached _ wanted unknown
    obtain ⟨file, read, -, types⟩ := read_of_opened (closure.opened p member)
    -- its file was not opened, or else it would answer
    have later : p ∉ done := by
      intro before
      obtain ⟨className, other, leads⟩ := closure.led p member
      obtain ⟨d, declares, answers⟩ := (clear _ wanted unknown _ _ file other leads read).2 found
      rw [← types] at declares
      have silent : (g.declare (done.flatMap (·.build.types))).2 = [] := by rw [keeping.declared]
      have record := Registry.mem_declare silent (List.mem_flatMap.2 ⟨p, before, declares⟩)
      rw [keeping.declared] at record
      have some := Registry.lookup?_isSome_iff.2 ⟨_, record, answers⟩
      rw [known] at some
      cases some
    have fresh : identity provider p.path ∉ w.visited := by
      intro seen
      obtain ⟨first, distinct⟩ := List.nodup_cons.1 closure.distinct
      rcases keeping.visited _ seen with same | ⟨q, before, same⟩
      · exact first (List.mem_map.2 ⟨p, member, same⟩)
      · cases List.inj_on_of_nodup_map distinct member (keeping.inside before) same
        exact later before
    obtain ⟨mid, declared⟩ :=
      closure.next_silent keeping.once keeping.inside member later keeping.declared
    have parsed : FileBuild.fresh.parse w.context provider p.path =
        (.ok (), p.build, ⟨mid, w.context.reporter⟩) := by
      have build := closure.opened p member
      rw [FileBuild.opened?, read] at build
      refine FileBuild.parse_eq_ok_iff.2 ⟨file, read, (Option.some.inj build).symm, ?_, rfl⟩
      rw [← types]
      exact declared
    have opens : Encounter.opens? provider options ⟨i, w⟩ = some p.path :=
      Encounter.opens?_eq_some_iff.2 ⟨known, found, fresh⟩
    have opening : Encounter.opening? provider options ⟨i, w⟩ = some p :=
      Encounter.opening?_eq_some_iff.2 ⟨opens, _, parsed⟩
    have clean := follow_clean (e := ⟨i, w⟩) (.inr ⟨p, opening, closure.placed p member⟩)
      keeping.clean
    obtain ⟨next, followed, effect⟩ := follow_followed provider options ⟨i, w⟩
    dsimp only at followed clean
    rw [followed] at clean ⊢
    refine ⟨done ++ [p], clean, ?_, ?_, ?_, ?_⟩
    · simp [keeping.inside, member]
    · exact keeping.once.append (List.nodup_singleton p) (by simpa using later)
    · intro key seen
      rw [stateAfter, effect.visited, opens] at seen
      rcases List.mem_cons.1 seen with rfl | seen
      · exact .inr ⟨p, by simp, rfl⟩
      · rcases keeping.visited key seen with same | ⟨q, before, same⟩
        · exact .inl same
        · exact .inr ⟨q, List.mem_append_left _ before, same⟩
    · rw [List.flatMap_append]
      refine Registry.declare_append_silent.2 ⟨_, keeping.declared, ?_⟩
      simpa [opening, stateAfter] using effect.grown clean

/-- With a closure every walk is clean. -/
theorem clean_of_closure {s : FileStore} {build : FileBuild} {c : Context} {stops : List Stop}
    {w : Walk} (clear : OneFileEach s.provider options path c.registry build.classes)
    (closure : ImportClosure s.provider options path c.registry build.classes files)
    (walked : ofFile s.provider options path build c = .ok stops w) : w.clean = true := by
  have all := run_invariant
    (I := fun w => Following s.provider options path c.registry build.classes w ∧
      ∃ done, Keeping s.provider path c.registry files done w)
    (fun i w wanted => fun ⟨following, done, keeping⟩ =>
      ⟨following.step wanted, keeping.step closure clear wanted following⟩)
    (fun w first pending => fun ⟨following, done, keeping⟩ waiting =>
      ⟨(following.take waiting).1, (following.take waiting).2, done, keeping.clean, keeping.inside,
        keeping.once, keeping.visited, keeping.declared⟩)
    (s.provider.limit + 1)
    ⟨Following.start s.provider options path build c, [], rfl, by simp, List.nodup_nil,
      by simp [Walk.start], by simp [Registry.declare, Walk.start]⟩
  obtain ⟨-, -, done, keeping⟩ := all
  rw [show run s.provider options (s.provider.limit + 1) _ = _ from walked] at keeping
  exact keeping.clean

/-! ## There is one closure -/

/-- Two closures of the same imports differ in their order only. -/
theorem ImportClosure.perm {others : List Pending}
    (closure : ImportClosure provider options path g classes files)
    (other : ImportClosure provider options path g classes others) : files ~ others := by
  have part {files others : List Pending}
      (closure : ImportClosure provider options path g classes files)
      (other : ImportClosure provider options path g classes others) : files ⊆ others := by
    intro p member
    obtain ⟨className, wanted, leads⟩ := closure.led p member
    obtain ⟨q, inside, found⟩ := other.reached className wanted leads.unknown
    have paths : p.path = q.path := Option.some.inj (leads.found.symm.trans found)
    have builds := closure.opened p member
    rw [paths, other.opened q inside] at builds
    have same : p = q := by
      cases p
      cases q
      cases paths
      cases builds
      rfl
    rwa [same]
  have once {files : List Pending}
      (closure : ImportClosure provider options path g classes files) : files.Nodup :=
    (List.nodup_cons.1 closure.distinct).2.of_map _
  rw [List.perm_ext_iff_of_nodup (once closure) (once other)]
  exact fun p => ⟨fun member => part closure other member, fun member => part other closure member⟩

end ImportWalk

end IdlFrontEnd
