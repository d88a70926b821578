import IdlFrontEnd.Proofs.Source.Store
import IdlFrontEnd.Proofs.Unit.Encounter

/-!
# How far the walk goes

The walk adds to the list that it goes through, so nothing in its code bounds it. What does is the
number of files that can be opened: no file is opened twice, whatever the paths that lead to it, and
only a stored file can be opened without a mistake. The walk therefore ends because nothing waits
any more, for every graph of imports, and the limit on its turns never cuts it off.

The files that a walk parses are told by a log of its steps. A step for which nothing is parsed gives
the same answer whatever can be read; a step that parses a file depends on no other file and adds the
reports of that one parse. So a second parse of a file, even of a broken one, would stand in the log.
-/
namespace IdlFrontEnd

/-! ## Stored files -/

namespace FileStore

variable {s : FileStore} {path other : String}

/-- What stands for a stored file is the same for all paths of one normal form. -/
theorem identity_eq (stored : s.contains path = true)
    (same : Path.normalForm path = Path.normalForm other) :
    ImportWalk.identity s.provider path = ImportWalk.identity s.provider other := by
  have both : s.contains other = true := by
    unfold contains find? at stored ⊢
    rwa [← same]
  simp [ImportWalk.identity, provider, canonicalize, stored, both, Path.normalize, same,
    Except.toOption]

end FileStore

namespace ImportWalk

variable {provider : SourceProvider} {options : Options}

/-! ## No file is opened twice -/

/-- A function that gives less often what another one gives picks a part of what that one picks. -/
theorem filterMap_sublist {α β : Type} {f g : α → Option β}
    (less : ∀ a b, f a = some b → g a = some b) (as : List α) : (as.filterMap f).Sublist (as.filterMap g) := by
  induction as with
  | nil => exact List.Sublist.slnil
  | cons a as ih =>
    cases picked : f a with
    | some b =>
      rw [List.filterMap_cons_some picked, List.filterMap_cons_some (less a b picked)]
      exact ih.cons_cons b
    | none =>
      rw [List.filterMap_cons_none picked]
      exact ih.trans ((List.sublist_cons_self a as).filterMap g)

theorem openings_sublist (provider : SourceProvider) (options : Options) (es : List Encounter) :
    ((openings provider options es).map Pending.path).Sublist (opens provider options es) := by
  unfold openings opens
  rw [List.map_filterMap]
  apply filterMap_sublist
  intro e path picked
  obtain ⟨p, opening, rfl⟩ := Option.map_eq_some_iff.1 picked
  exact (Encounter.opening?_eq_some_iff.1 opening).1

/-- In a walk from its start no two of the files are one, the first file included. -/
theorem Course.distinct {path : String} {build : FileBuild} {c : Context} {es : List Encounter}
    {taken : List Pending} {next : Walk}
    (course : Course provider options es taken (.start provider path build c) next) :
    (identity provider path :: (opens provider options es).map (identity provider)).Nodup := by
  have visited : next.visited =
      (identity provider path :: (opens provider options es).map (identity provider)).reverse := by
    rw [course.visited, List.reverse_cons]
    rfl
  have distinct := course.fresh (List.nodup_cons.2 ⟨List.not_mem_nil, List.nodup_nil⟩)
  rw [visited] at distinct
  exact (List.pairwise_reverse.1 distinct).imp Ne.symm

/-! ## Which files are parsed -/

theorem opens_cons (e : Encounter) (es : List Encounter) :
    opens provider options (e :: es) = (e.opens? provider options).toList ++
      opens provider options es := by
  cases opened : e.opens? provider options with
  | none => exact List.filterMap_cons_none opened
  | some path => exact List.filterMap_cons_some opened

theorem opens_append (es more : List Encounter) :
    opens provider options (es ++ more) =
      opens provider options es ++ opens provider options more :=
  List.filterMap_append

/-- What the walk itself reports of a file that was parsed for an import. -/
def ownNotes (i : ImportStatement) (path : String) :
    Except ParseFailure Unit × FileBuild × Context → List Diagnostic
  | (.ok (), build, _) => build.types.flatMap (·.placementNotes path)
  | (.error _, _, _) => [.atPlace i.location (.importFailed path i.className)]

section
variable (provider : SourceProvider) (options : Options)

/-- Following one import with the files that are parsed for it. -/
inductive Parses (i : ImportStatement) (w : Walk) (link : Link) (next : Walk) : List String → Prop
  /-- Whatever can be read, the answer is this one, so no file is read. -/
  | none (silent : ∀ read, follow { provider with read } options i w = .ok link next) :
      Parses i w link next []
  /-- The answer depends on no other file, and the context is that of parsing this file once, with
  what the walk has to say of it. -/
  | one {path : String}
      (only : ∀ read, read path = provider.read path →
        follow { provider with read } options i w = .ok link next)
      (once : next.context =
        (FileBuild.fresh.parse w.context provider path).2.2.report
          (ownNotes i path (FileBuild.fresh.parse w.context provider path))) :
      Parses i w link next [path]

/-- Following several imports with the files that are parsed for them, in order. -/
inductive ParsesAll : List ImportStatement → Walk → List Link → Walk → List String → Prop
  | nil (w : Walk) : ParsesAll [] w [] w []
  | cons {i : ImportStatement} {is : List ImportStatement} {w mid next : Walk} {link : Link}
      {links : List Link} {paths more : List String}
      (first : Parses provider options i w link mid paths)
      (others : ParsesAll is mid links next more) :
      ParsesAll (i :: is) w (link :: links) next (paths ++ more)

/-- Up to so many turns of the walk with the files that are parsed in them, in order. -/
inductive Turns : Nat → Walk → List Stop → Walk → List String → Prop
  | none (w : Walk) : Turns 0 w [] w []
  | ended {count : Nat} {w : Walk} (done : w.pending = []) : Turns (count + 1) w [] w []
  | turn {count : Nat} {w mid next : Walk} {first : Pending} {pending : List Pending}
      {links : List Link} {stops : List Stop} {paths more : List String}
      (waiting : w.pending = first :: pending)
      (imports : ParsesAll provider options first.build.imports { w with pending } links mid paths)
      (others : Turns count mid stops next more) :
      Turns (count + 1) w (⟨first.path, first.build, links⟩ :: stops) next (paths ++ more)

end

/-- Parsing a file reads no other one. -/
theorem parse_read {c : Context} {path : String} {read : String → Except FileError String}
    (same : read path = provider.read path) :
    FileBuild.fresh.parse c { provider with read } path =
      FileBuild.fresh.parse c provider path := by
  simp only [FileBuild.parse, Context.openFile, same]

/-- Opening a file parses it once. -/
theorem openFor_context {i : ImportStatement} {path : String} {w next : Walk} {link : Link}
    (opened : openFor provider i path w = .ok link next) :
    next.context = (FileBuild.fresh.parse w.context provider path).2.2.report
      (ownNotes i path (FileBuild.fresh.parse w.context provider path)) := by
  unfold openFor at opened
  generalize FileBuild.fresh.parse w.context provider path = parsed at opened ⊢
  obtain ⟨result, build, context⟩ := parsed
  cases result with
  | ok done =>
    cases opened
    rfl
  | error failure =>
    cases failure with
    | fatal f => cases opened
    | unreadable | malformed | unresolved =>
      cases opened
      rfl

theorem follow_of_opens_parses {e : Encounter} {path : String}
    (opens : e.opens? provider options = some path) {link : Link} {next : Walk}
    (followed : follow provider options e.statement e.before = .ok link next) :
    Parses provider options e.statement e.before link next [path] := by
  rw [follow_of_opens opens] at followed
  refine .one ?_ (openFor_context followed)
  intro read same
  have other : e.opens? { provider with read } options = some path := opens
  rw [follow_of_opens other, ← followed]
  unfold openFor
  rw [parse_read same]
  rfl

/-- The files that are parsed for an import are those that its encounter says. -/
theorem follow_parses (provider : SourceProvider) (options : Options) (e : Encounter) :
    ∃ next, follow provider options e.statement e.before = .ok (e.link provider options) next ∧
      Parses provider options e.statement e.before (e.link provider options) next
        (e.opens? provider options).toList := by
  obtain ⟨next, followed, -⟩ := follow_followed provider options e
  refine ⟨next, followed, ?_⟩
  cases opens : e.opens? provider options with
  | some path => exact follow_of_opens_parses opens followed
  | none => exact .none fun read => (follow_of_unopened opens read).trans followed

theorem followAll_parses (provider : SourceProvider) (options : Options)
    (is : List ImportStatement) (w : Walk) :
    ∃ links next, followAll provider options is w = .ok links next ∧
      ParsesAll provider options is w links next
        (opens provider options (encountersWith provider options is w)) := by
  induction is generalizing w with
  | nil => exact ⟨[], w, rfl, .nil w⟩
  | cons i is ih =>
    obtain ⟨mid, hfirst, first⟩ := follow_parses provider options ⟨i, w⟩
    obtain ⟨links, next, hothers, others⟩ := ih mid
    rw [encountersWith_cons provider options hfirst, opens_cons]
    exact ⟨_, next, followAll_cons hfirst hothers, .cons first others⟩

/-- The files that are parsed in a walk are those that its encounters say. -/
theorem run_parses (provider : SourceProvider) (options : Options) (count : Nat) (w : Walk) :
    ∃ stops next, run provider options count w = .ok stops next ∧
      Turns provider options count w stops next
        (opens provider options (encounters provider options count w)) := by
  induction count generalizing w with
  | zero => exact ⟨[], w, rfl, .none w⟩
  | succ count ih =>
    cases waiting : w.pending with
    | nil =>
      rw [encounters, waiting]
      exact ⟨[], w, run_of_ended waiting, .ended waiting⟩
    | cons first pending =>
      obtain ⟨links, mid, hlinks, imports⟩ :=
        followAll_parses provider options first.build.imports { w with pending }
      obtain ⟨stops, next, hstops, others⟩ := ih mid
      rw [encounters_succ provider options waiting hlinks, opens_append]
      exact ⟨_, next, run_of_waiting waiting hlinks hstops, .turn waiting imports others⟩

/-! ## The walk ends -/

/-- Files of a store that are opened without a mistake are no more than the store holds. -/
theorem length_openings_le {s : FileStore} {es : List Encounter}
    (distinct : ((opens s.provider options es).map (identity s.provider)).Nodup) :
    (openings s.provider options es).length ≤ s.files.length := by
  have stored : ∀ p ∈ openings s.provider options es, s.contains p.path = true := by
    intro p member
    obtain ⟨e, -, opening⟩ := List.mem_filterMap.1 member
    obtain ⟨-, next, parsed⟩ := Encounter.opening?_eq_some_iff.1 opening
    obtain ⟨text, file, read, -⟩ := FileBuild.parse_ok parsed
    exact FileStore.contains_of_read read
  have apart : (openings s.provider options es).Pairwise fun p q =>
      identity s.provider p.path ≠ identity s.provider q.path := by
    have part := (openings_sublist s.provider options es).map (identity s.provider)
    have paths : (((openings s.provider options es).map Pending.path).map
        (identity s.provider)).Nodup := distinct.sublist part
    rw [List.map_map] at paths
    exact List.pairwise_map.1 paths
  have keys : ((openings s.provider options es).map (Path.normalForm ·.path)).Nodup := by
    apply List.pairwise_map.2
    apply apart.imp_of_mem
    intro p q first _ other same
    exact other (FileStore.identity_eq (stored p first) same)
  have within : (openings s.provider options es).map (Path.normalForm ·.path) ⊆
      s.files.map Prod.fst := by
    intro key member
    obtain ⟨p, inside, rfl⟩ := List.mem_map.1 member
    exact FileStore.mem_keys_of_contains (stored p inside)
  simpa using keys.length_le_of_subset within

/-- A walk after which nothing waits is the same with any more turns. -/
theorem run_add {count : Nat} {w next : Walk} {stops : List Stop}
    (h : run provider options count w = .ok stops next) (ended : next.pending = []) (more : Nat) :
    run provider options (count + more) w = .ok stops next := by
  induction count generalizing w stops with
  | zero =>
    cases h
    cases more with
    | zero => rw [run]; rfl
    | succ more =>
      rw [Nat.zero_add, run, get_bind, ended]
      rfl
  | succ count ih =>
    rw [Nat.add_right_comm]
    unfold run at h ⊢
    rw [get_bind] at h ⊢
    cases waiting : w.pending with
    | nil =>
      rw [waiting] at h
      exact h
    | cons first pending =>
      rw [waiting] at h
      dsimp only at h ⊢
      rw [modify_bind] at h ⊢
      obtain ⟨links, mid, hlinks, h⟩ := bind_eq_ok.1 h
      obtain ⟨others, last, hothers, h⟩ := bind_eq_ok.1 h
      cases h
      rw [bind_of_ok hlinks, bind_of_ok (ih hothers)]
      rfl

section
variable {s : FileStore} {path : String} {build : FileBuild} {c : Context}

/-- Of a store, no more than its files can follow the first one. -/
theorem Course.length_le {es : List Encounter} {taken : List Pending} {w : Walk}
    (course : Course s.provider options es taken (.start s.provider path build c) w) :
    taken.length + w.pending.length ≤ 1 + s.files.length := by
  have opened := length_openings_le (List.nodup_cons.1 course.distinct).2
  have all := congrArg List.length course.pending
  simp only [List.length_append, Walk.start, List.length_singleton] at all
  omega

end

/-- The walk from one file of a store comes to its end. -/
theorem ofFile_course (s : FileStore) (options : Options) (path : String) (build : FileBuild)
    (c : Context) :
    ∃ stops w, ofFile s.provider options path build c = .ok stops w ∧
      Course s.provider options (met s.provider options path build c) (stops.map Stop.source)
        (.start s.provider path build c) w ∧
      stops.flatMap Stop.joints =
        (met s.provider options path build c).map
          (fun e => (e.statement, e.link s.provider options)) ∧
      Consecutive 0 1 stops ∧ w.pending = [] := by
  obtain ⟨stops, w, hrun, course, joints, consecutive, last⟩ :=
    run_course s.provider options (s.provider.limit + 1) (.start s.provider path build c)
  refine ⟨stops, w, hrun, course, joints, consecutive 0 rfl, ?_⟩
  rcases last with ended | turns
  · exact ended
  · have most := course.length_le
    have limit : s.provider.limit = s.files.length := rfl
    rw [List.length_map, turns, limit] at most
    apply List.eq_nil_of_length_eq_zero
    omega

/-- Whatever the first file, its imports and the registry are, a walk through a store parses the
files of a log. No two of these are one, nor is the first file among them again, whichever paths lead
to them. There are never more files than the first one and those of the store, and the walk ends
because nothing waits any more. -/
theorem run_bounded (s : FileStore) (options : Options) (path : String) (build : FileBuild)
    (c : Context) :
    (∀ count, ∃ stops w paths,
      run s.provider options count (.start s.provider path build c) = .ok stops w ∧
        Turns s.provider options count (.start s.provider path build c) stops w paths ∧
        (identity s.provider path :: paths.map (identity s.provider)).Nodup ∧
        stops.length + w.pending.length ≤ 1 + s.files.length) ∧
      ∃ stops w, ofFile s.provider options path build c = .ok stops w ∧ w.pending = [] ∧
        ∀ more, run s.provider options (1 + s.files.length + more)
          (.start s.provider path build c) = .ok stops w := by
  constructor
  · intro count
    obtain ⟨stops, w, hrun, course, -⟩ :=
      run_course s.provider options count (.start s.provider path build c)
    obtain ⟨stops', w', again, turns⟩ :=
      run_parses s.provider options count (.start s.provider path build c)
    cases hrun.symm.trans again
    have most := course.length_le
    rw [List.length_map] at most
    exact ⟨stops, w, _, hrun, turns, course.distinct, most⟩
  · obtain ⟨stops, w, hrun, -, -, -, ended⟩ := ofFile_course s options path build c
    refine ⟨stops, w, hrun, ended, ?_⟩
    intro more
    have same := run_add hrun ended more
    rwa [show s.provider.limit = s.files.length from rfl, Nat.add_comm s.files.length] at same

end ImportWalk

end IdlFrontEnd
