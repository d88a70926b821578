import IdlFrontEnd.Proofs.Build
import IdlFrontEnd.Proofs.DeclareOrder
import IdlFrontEnd.Proofs.Unit.ImportWalk

/-!
# What the walk meets

The walk is a sequence of encounters, each with one import in the state in which that import is
followed. Whether a file is opened for it, which one, and what becomes of it can be read off the
encounter alone. All that the walk keeps is the sum of these answers: which files it has visited,
which files wait, how many it has opened and where its links lead.
-/
namespace IdlFrontEnd.ImportWalk

/-- An import with the state of the walk in which it is followed. -/
structure Encounter where
  statement : ImportStatement
  before : Walk

namespace Encounter

section
variable (provider : SourceProvider) (options : Options) (e : Encounter)

/-- The record that answers to the class of the import when the walk comes to it. -/
def known? : Option TypeRecord := e.before.context.registry.lookup? e.statement.className

/-- The file that is opened for the import: the one that is found for a class that is not known,
unless that file was opened before. Only for this file is anything read (`follow_of_opens`,
`follow_of_unopened`). -/
def opens? : Option String :=
  match e.known? with
  | some _ => none
  | none =>
    (ImportSearch.file? provider options e.statement.className).bind fun path =>
      if e.before.visited.contains (identity provider path) then none else some path

/-- The file that is opened for the import if there is no mistake in it. -/
def opening? : Option Pending :=
  (e.opens? provider options).bind fun path =>
    match FileBuild.fresh.parse e.before.context provider path with
    | (.ok (), build, _) => some ⟨path, build⟩
    | _ => none

def link : Link where
  file :=
    match e.known? with
    | some record => e.before.classFiles.lookup record.canonical
    | none => ImportSearch.file? provider options e.statement.className
  target := (e.opening? provider options).map fun _ => e.before.opened

/-- The import gives no reason for the walk to fail: its class is known, or a file is opened for it
that declares nothing out of place. -/
def Settled : Prop :=
  e.known?.isSome = true ∨
    ∃ p, e.opening? provider options = some p ∧ ∀ d ∈ p.build.types, d.placementNotes p.path = []

end

variable {provider : SourceProvider} {options : Options} {e : Encounter}

theorem opens?_eq_some_iff {path : String} :
    e.opens? provider options = some path ↔
      e.known? = none ∧ ImportSearch.file? provider options e.statement.className = some path ∧
        identity provider path ∉ e.before.visited := by
  unfold opens?
  cases e.known? with
  | some record => simp
  | none =>
    rw [Option.bind_eq_some_iff]
    constructor
    · rintro ⟨found, search, h⟩
      split at h
      · cases h
      next fresh =>
        cases h
        exact ⟨rfl, search, fun seen => fresh (List.contains_iff_mem.2 seen)⟩
    · rintro ⟨-, search, fresh⟩
      exact ⟨path, search, if_neg fun seen => fresh (List.contains_iff_mem.1 seen)⟩

theorem file_of_opens {path : String} (h : e.opens? provider options = some path) :
    (e.link provider options).file = some path := by
  obtain ⟨unknown, found, -⟩ := opens?_eq_some_iff.1 h
  simp [link, unknown, found]

theorem opening?_eq_some_iff {p : Pending} :
    e.opening? provider options = some p ↔
      e.opens? provider options = some p.path ∧
        ∃ next, FileBuild.fresh.parse e.before.context provider p.path = (.ok (), p.build, next) := by
  unfold opening?
  rw [Option.bind_eq_some_iff]
  constructor
  · rintro ⟨path, opens, h⟩
    split at h
    next build next parsed =>
      cases h
      exact ⟨opens, next, parsed⟩
    · cases h
  · rintro ⟨opens, next, parsed⟩
    refine ⟨p.path, opens, ?_⟩
    rw [parsed]

theorem link_of_opening {p : Pending} (h : e.opening? provider options = some p) :
    e.link provider options = ⟨some p.path, some e.before.opened⟩ := by
  rw [← file_of_opens (opening?_eq_some_iff.1 h).1, link, h]
  rfl

theorem link_of_no_opening (h : e.opening? provider options = none) {file : Option String}
    (own : (e.link provider options).file = file) : e.link provider options = ⟨file, none⟩ := by
  rw [← own, link, h]
  rfl

/-- A file that is found and yet not opened was opened before. -/
theorem visited_of_unopened (h : e.opens? provider options = none) (unknown : e.known? = none)
    {path : String}
    (found : ImportSearch.file? provider options e.statement.className = some path) :
    identity provider path ∈ e.before.visited := by
  apply Decidable.byContradiction
  intro fresh
  rw [opens?_eq_some_iff.2 ⟨unknown, found, fresh⟩] at h
  cases h

theorem opening?_of_unopened (h : e.opens? provider options = none) :
    e.opening? provider options = none := by
  unfold opening?
  rw [h]
  rfl

theorem opening?_of_rejected {path : String} (h : e.opens? provider options = some path)
    {failure : ParseFailure}
    (rejected : (FileBuild.fresh.parse e.before.context provider path).1 = .error failure) :
    e.opening? provider options = none := by
  cases opened : e.opening? provider options with
  | none => rfl
  | some p =>
    obtain ⟨opens, next, parsed⟩ := opening?_eq_some_iff.1 opened
    cases h.symm.trans opens
    rw [parsed] at rejected
    cases rejected

end Encounter

/-! ## One import -/

/-- What following an import makes of the walk. -/
structure Followed (provider : SourceProvider) (options : Options) (e : Encounter) (next : Walk) :
    Prop where
  pending : next.pending = e.before.pending ++ (e.opening? provider options).toList
  opened : next.opened = e.before.opened + (e.opening? provider options).toList.length
  visited : next.visited =
    ((e.opens? provider options).map (identity provider)).toList ++ e.before.visited
  kept : e.before.context.registry.records ⊆ next.context.registry.records
  declared : ∀ p, e.opening? provider options = some p → ∀ d ∈ p.build.types,
    TypeRecord.ofDeclaration d ∈ next.context.registry.records
  clean : next.clean = true → e.before.clean = true ∧ e.Settled provider options
  /-- If the walk is still clean, the types of the file that was opened are all that was added. -/
  grown : next.clean = true →
    e.before.context.registry.declare
      ((e.opening? provider options).toList.flatMap fun p => p.build.types) =
        (next.context.registry, [])

section
variable {provider : SourceProvider} {options : Options} {e : Encounter}

/-- An import that no file is opened for changes nothing but whether the walk is clean. -/
theorem Followed.unopened (unopened : e.opens? provider options = none) {next : Walk}
    (same : next = e.before ∧ e.known?.isSome = true ∨ ∃ notes, next = e.before.fail notes) :
    Followed provider options e next := by
  have none := Encounter.opening?_of_unopened unopened
  rcases same with ⟨rfl, known⟩ | ⟨notes, rfl⟩
  · constructor
    case clean => exact fun clean => ⟨clean, .inl known⟩
    case grown => simp [none, Registry.declare]
    all_goals simp [none, unopened]
  · constructor
    case clean => exact fun clean => absurd clean Bool.false_ne_true
    case grown => exact fun clean => absurd clean Bool.false_ne_true
    all_goals simp [none, unopened, Walk.fail, Context.report]

theorem openFor_followed {path : String} (opens : e.opens? provider options = some path) :
    ∃ next, openFor provider e.statement path e.before = .ok (e.link provider options) next ∧
      Followed provider options e next := by
  obtain ⟨notes, -, outcome⟩ := FileBuild.parse_outcome e.before.context provider path
  have kept := (FileBuild.fresh.parse_grows e.before.context provider path).subset
  have rejected := @Encounter.opening?_of_rejected _ _ _ _ opens
  unfold openFor
  cases parsed : FileBuild.fresh.parse e.before.context provider path with
  | mk result answer =>
    obtain ⟨build, context⟩ := answer
    rw [parsed] at outcome kept rejected
    cases outcome with
    | ok opened =>
      have opening : e.opening? provider options = some ⟨path, build⟩ :=
        Encounter.opening?_eq_some_iff.2 ⟨opens, context, parsed⟩
      refine ⟨_, by rw [Encounter.link_of_opening opening], ?_⟩
      constructor
      case declared =>
        intro p same d member
        cases opening.symm.trans same
        exact FileBuild.declared_of_parse parsed d member
      case clean =>
        intro clean
        obtain ⟨before, silent⟩ := Bool.and_eq_true_iff.1 clean
        refine ⟨before, .inr ⟨_, opening, ?_⟩⟩
        exact List.flatMap_eq_nil_iff.1 (List.isEmpty_iff.1 silent)
      case grown =>
        intro _
        obtain ⟨text, file, -, -, document, declared⟩ := FileBuild.parse_ok parsed
        have types : build.types = file.types := by
          simp [FileBuild.types, document, Grammar.SourceFile.document]
        simpa [opening, types, Walk.add, Context.report] using declared
      all_goals simp [opening, opens, Walk.add, Context.report, kept]
    | @error failure _ _ mild some =>
      have opening := rejected rfl
      have effect : Followed provider options e <|
          Walk.fail
            { e.before with
              context
              visited := identity provider path :: e.before.visited
              broken := identity provider path :: e.before.broken }
            [.atPlace e.statement.location (.importFailed path e.statement.className)] := by
        constructor
        case clean => exact fun clean => absurd clean Bool.false_ne_true
        case grown => exact fun clean => absurd clean Bool.false_ne_true
        all_goals simp [opening, opens, Walk.fail, Context.report, kept]
      refine ⟨_, ?_, effect⟩
      rw [Encounter.link_of_no_opening opening (Encounter.file_of_opens opens)]
      cases failure with
      | fatal f => exact absurd rfl (mild f)
      | unreadable | malformed | unresolved => rfl

theorem follow_of_opens {path : String} (opens : e.opens? provider options = some path) :
    follow provider options e.statement e.before = openFor provider e.statement path e.before := by
  obtain ⟨unknown, found, fresh⟩ := Encounter.opens?_eq_some_iff.1 opens
  unfold follow
  rw [show e.before.context.registry.lookup? e.statement.className = none from unknown, found]
  exact if_neg fresh

/-- An import that no file is opened for is followed without reading any file. -/
theorem follow_of_unopened (unopened : e.opens? provider options = none)
    (read : String → Except FileError String) :
    follow { provider with read } options e.statement e.before =
      follow provider options e.statement e.before := by
  unfold follow
  cases known : e.before.context.registry.lookup? e.statement.className with
  | some record => rfl
  | none =>
    have search : ImportSearch.file? { provider with read } options e.statement.className =
        ImportSearch.file? provider options e.statement.className := rfl
    rw [search]
    cases found : ImportSearch.file? provider options e.statement.className with
    | none => rfl
    | some path =>
      have seen := Encounter.visited_of_unopened unopened known found
      have other : identity { provider with read } path = identity provider path := rfl
      dsimp only
      rw [other, if_pos seen, if_pos seen]

/-- No import ends the walk at once, and the link of an import is the one that its encounter says. -/
theorem follow_followed (provider : SourceProvider) (options : Options) (e : Encounter) :
    ∃ next, follow provider options e.statement e.before = .ok (e.link provider options) next ∧
      Followed provider options e next := by
  cases opens : e.opens? provider options with
  | some path =>
    rw [follow_of_opens opens]
    exact openFor_followed opens
  | none =>
    have link {file : Option String} :=
      @Encounter.link_of_no_opening _ _ _ (Encounter.opening?_of_unopened opens) file
    unfold follow
    cases known : e.known? with
    | some record =>
      have file : (e.link provider options).file =
          e.before.classFiles.lookup record.canonical := by
        simp [Encounter.link, known]
      rw [show e.before.context.registry.lookup? e.statement.className = some record from known,
        link file]
      exact ⟨_, rfl, .unopened opens (.inl ⟨rfl, by rw [known]; rfl⟩)⟩
    | none =>
      have file : (e.link provider options).file =
          ImportSearch.file? provider options e.statement.className := by
        simp [Encounter.link, known]
      rw [show e.before.context.registry.lookup? e.statement.className = none from known,
        link file]
      dsimp only
      cases found : ImportSearch.file? provider options e.statement.className with
      | none => exact ⟨_, rfl, .unopened opens (.inr ⟨_, rfl⟩)⟩
      | some path =>
        dsimp only
        rw [if_pos (Encounter.visited_of_unopened opens known found)]
        exact ⟨_, rfl, .unopened opens (.inr ⟨_, rfl⟩)⟩

/-! ## Many imports -/

section
variable (provider : SourceProvider) (options : Options)

/-- The encounters with these imports, one after the other. -/
def encountersWith : List ImportStatement → Walk → List Encounter
  | [], _ => []
  | i :: is, w => ⟨i, w⟩ :: encountersWith is (stateAfter (follow provider options i w))

/-- All encounters of up to `count` turns of the walk, in order. -/
def encounters : Nat → Walk → List Encounter
  | 0, _ => []
  | count + 1, w =>
    match w.pending with
    | [] => []
    | first :: pending =>
      let turn := { w with pending }
      encountersWith provider options first.build.imports turn ++
        encounters count (stateAfter (followAll provider options first.build.imports turn))

theorem encountersWith_cons {i : ImportStatement} {w mid : Walk} {link : Link}
    (followed : follow provider options i w = .ok link mid) (is : List ImportStatement) :
    encountersWith provider options (i :: is) w =
      ⟨i, w⟩ :: encountersWith provider options is mid := by
  rw [encountersWith, followed]
  rfl

theorem encounters_succ {w mid : Walk} {first : Pending} {pending : List Pending}
    {links : List Link} (waiting : w.pending = first :: pending)
    (followed : followAll provider options first.build.imports { w with pending } = .ok links mid)
    (count : Nat) :
    encounters provider options (count + 1) w =
      encountersWith provider options first.build.imports { w with pending } ++
        encounters provider options count mid := by
  rw [encounters, waiting]
  dsimp only
  rw [followed]
  rfl

/-- All encounters of the walk from one file. -/
def met (path : String) (build : FileBuild) (c : Context) : List Encounter :=
  encounters provider options (provider.limit + 1) (.start provider path build c)

/-- The files that are opened in these encounters. -/
def opens (es : List Encounter) : List String := es.filterMap (·.opens? provider options)

/-- Those of them that are opened without a mistake. -/
def openings (es : List Encounter) : List Pending := es.filterMap (·.opening? provider options)

/-- What a part of the walk has done when it has come through these encounters and has taken up
these pending files. -/
structure Course (es : List Encounter) (taken : List Pending) (w next : Walk) : Prop where
  pending : taken ++ next.pending = w.pending ++ openings provider options es
  opened : next.opened = w.opened + (openings provider options es).length
  visited : next.visited =
    ((opens provider options es).map (identity provider)).reverse ++ w.visited
  fresh : w.visited.Nodup → next.visited.Nodup
  kept : w.context.registry.records ⊆ next.context.registry.records
  clean : next.clean = true → w.clean = true ∧ ∀ e ∈ es, e.Settled provider options
  /-- What the registry knew in an encounter or learnt from it, it knows in the end. -/
  known : ∀ e ∈ es, e.before.context.registry.records ⊆ next.context.registry.records ∧
    ∀ p, e.opening? provider options = some p → ∀ d ∈ p.build.types,
      TypeRecord.ofDeclaration d ∈ next.context.registry.records
  /-- The links lead to these files in the order in which they were opened. -/
  targets : es.filterMap (fun e => (e.link provider options).target) =
    List.range' w.opened (openings provider options es).length
  /-- Files are numbered in that order. -/
  numbered : ∀ files : List Pending, files.length = w.opened → ∀ e ∈ es, ∀ p,
    e.opening? provider options = some p →
      (files ++ openings provider options es)[e.before.opened]? = some p
  /-- A clean walk has added the types of the files that it opened, and nothing else. -/
  grown : next.clean = true →
    w.context.registry.declare
      ((openings provider options es).flatMap fun p => p.build.types) =
        (next.context.registry, [])

end

namespace Course

theorem refl (w : Walk) : Course provider options [] [] w w := by
  constructor <;> simp [openings, opens, Registry.declare]

/-- The next pending file is taken up. -/
theorem take {w : Walk} {first : Pending} {pending : List Pending}
    (waiting : w.pending = first :: pending) :
    Course provider options [] [first] w { w with pending } := by
  constructor <;> simp [openings, opens, waiting, Registry.declare]

theorem single {next : Walk} (followed : Followed provider options e next) :
    Course provider options [e] [] e.before next := by
  have opening : openings provider options [e] = (e.opening? provider options).toList := by
    cases h : e.opening? provider options <;> simp [openings, h]
  have opened : opens provider options [e] = (e.opens? provider options).toList := by
    cases h : e.opens? provider options <;> simp [opens, h]
  constructor
  case pending => rw [followed.pending, opening, List.nil_append]
  case opened => rw [followed.opened, opening]
  case visited =>
    rw [followed.visited, opened]
    cases e.opens? provider options <;> rfl
  case fresh =>
    intro distinct
    rw [followed.visited]
    cases h : e.opens? provider options with
    | none => exact distinct
    | some path => exact List.nodup_cons.2 ⟨(Encounter.opens?_eq_some_iff.1 h).2.2, distinct⟩
  case kept => exact followed.kept
  case clean => simpa using followed.clean
  case known =>
    intro e' member
    obtain rfl := List.mem_singleton.1 member
    exact ⟨followed.kept, followed.declared⟩
  case targets =>
    rw [opening]
    cases h : e.opening? provider options <;> simp [Encounter.link, h]
  case numbered =>
    intro files count e' member p h
    obtain rfl := List.mem_singleton.1 member
    rw [opening, h, ← count]
    simp
  case grown =>
    rw [opening]
    exact followed.grown

theorem trans {es more : List Encounter} {taken further : List Pending} {w mid next : Walk}
    (first : Course provider options es taken w mid)
    (second : Course provider options more further mid next) :
    Course provider options (es ++ more) (taken ++ further) w next := by
  have opening : openings provider options (es ++ more) =
      openings provider options es ++ openings provider options more := List.filterMap_append
  constructor
  case pending =>
    rw [List.append_assoc, second.pending, ← List.append_assoc, first.pending, opening,
      List.append_assoc]
  case opened => rw [second.opened, first.opened, opening, List.length_append, Nat.add_assoc]
  case visited =>
    rw [second.visited, first.visited]
    simp [opens]
  case fresh => exact fun distinct => second.fresh (first.fresh distinct)
  case kept => exact List.Subset.trans first.kept second.kept
  case clean =>
    intro clean
    obtain ⟨between, settled⟩ := second.clean clean
    obtain ⟨before, settledFirst⟩ := first.clean between
    exact ⟨before, fun e member => (List.mem_append.1 member).elim (settledFirst e) (settled e)⟩
  case known =>
    intro e member
    rcases List.mem_append.1 member with member | member
    · obtain ⟨before, declared⟩ := first.known e member
      exact ⟨List.Subset.trans before second.kept,
        fun p h d inside => second.kept (declared p h d inside)⟩
    · exact second.known e member
  case targets =>
    rw [List.filterMap_append, first.targets, second.targets, first.opened, opening,
      List.length_append, List.range'_append_1]
  case numbered =>
    intro files count e member p h
    rw [opening, ← List.append_assoc]
    rcases List.mem_append.1 member with member | member
    · have found := first.numbered files count e member p h
      have bound := (List.getElem?_eq_some_iff.1 found).1
      rw [List.getElem?_append_left bound]
      exact found
    · apply second.numbered _ _ e member p h
      rw [List.length_append, count, first.opened]
  case grown =>
    intro clean
    rw [opening, List.flatMap_append]
    have between := (second.clean clean).1
    exact Registry.declare_append_silent.2 ⟨_, first.grown between, second.grown clean⟩

end Course

/-- The imports of a file are all followed, and their links are those of the encounters. -/
theorem followAll_course (provider : SourceProvider) (options : Options)
    (is : List ImportStatement) (w : Walk) :
    ∃ next,
      followAll provider options is w =
          .ok ((encountersWith provider options is w).map (·.link provider options)) next ∧
        Course provider options (encountersWith provider options is w) [] w next := by
  induction is generalizing w with
  | nil => exact ⟨w, rfl, .refl w⟩
  | cons i is ih =>
    obtain ⟨mid, hfirst, followed⟩ := follow_followed provider options ⟨i, w⟩
    obtain ⟨next, hothers, others⟩ := ih mid
    rw [encountersWith_cons provider options hfirst]
    exact ⟨next, followAll_cons hfirst hothers, (Course.single followed).trans others⟩

theorem statements_encountersWith (provider : SourceProvider) (options : Options)
    (is : List ImportStatement) (w : Walk) :
    (encountersWith provider options is w).map Encounter.statement = is := by
  induction is generalizing w with
  | nil => rfl
  | cons i is ih => simp [encountersWith, ih]

/-- The file of a stop as it was when it waited. -/
def Stop.source (stop : Stop) : Pending := ⟨stop.path, stop.build⟩

/-- The imports of a stop with their links. -/
def Stop.joints (stop : Stop) : List (ImportStatement × Link) :=
  stop.build.imports.zip stop.links

/-- Each stop, from number `first` on, has a link for each of its imports. The links lead to the
files from number `next` on, in order and each once, and all files up to there were opened before
their own turn. -/
inductive Consecutive : Nat → Nat → List Stop → Prop
  | nil {first next : Nat} : Consecutive first next []
  | cons {first next count : Nat} {stop : Stop} {stops : List Stop} (waited : first < next)
      (whole : stop.build.imports.length = stop.links.length)
      (targets : stop.links.filterMap Link.target = List.range' next count)
      (others : Consecutive (first + 1) (next + count) stops) :
      Consecutive first next (stop :: stops)

theorem Consecutive.statements {first next : Nat} {stops : List Stop}
    (consecutive : Consecutive first next stops) :
    (stops.flatMap Stop.joints).map Prod.fst = stops.flatMap (·.build.imports) := by
  induction consecutive with
  | nil => rfl
  | cons waited whole targets others ih =>
    simp [Stop.joints, ih, List.map_fst_zip (Nat.le_of_eq whole)]

/-- All turns come to their end, and the stops are the files that were taken up. -/
theorem run_course (provider : SourceProvider) (options : Options) (count : Nat) (w : Walk) :
    ∃ stops next, run provider options count w = .ok stops next ∧
      Course provider options (encounters provider options count w) (stops.map Stop.source) w next ∧
      stops.flatMap Stop.joints =
        (encounters provider options count w).map
          (fun e => (e.statement, e.link provider options)) ∧
      (∀ first, first + w.pending.length = w.opened → Consecutive first w.opened stops) ∧
      (next.pending = [] ∨ stops.length = count) := by
  induction count generalizing w with
  | zero => exact ⟨[], w, rfl, .refl w, rfl, fun _ _ => .nil, .inr rfl⟩
  | succ count ih =>
    cases waiting : w.pending with
    | nil =>
      rw [encounters, waiting]
      exact ⟨[], w, run_of_ended waiting, .refl w, rfl, fun _ _ => .nil, .inl waiting⟩
    | cons first pending =>
      obtain ⟨mid, hlinks, followed⟩ :=
        followAll_course provider options first.build.imports { w with pending }
      obtain ⟨stops, next, hstops, others, joints, consecutive, last⟩ := ih mid
      have written := statements_encountersWith provider options first.build.imports
        { w with pending }
      have hrun := run_of_waiting waiting hlinks hstops
      rw [encounters_succ provider options waiting hlinks]
      generalize encountersWith provider options first.build.imports { w with pending } = own
        at followed written hrun ⊢
      refine ⟨_, next, hrun, ((Course.take waiting).trans followed).trans others, ?_, ?_, ?_⟩
      · rw [List.flatMap_cons, joints, List.map_append, Stop.joints, ← written, List.zip_map']
      · intro number placed
        have whole : first.build.imports.length =
            (own.map (·.link provider options)).length := by simp [← written]
        have targets : (own.map (·.link provider options)).filterMap Link.target =
            List.range' w.opened (openings provider options own).length := by
          rw [List.filterMap_map]
          exact followed.targets
        have lengths := congrArg List.length followed.pending
        have opened := followed.opened
        simp only [List.nil_append, List.length_append, List.length_cons] at lengths placed opened
        have others := consecutive (number + 1) (by omega)
        rw [followed.opened] at others
        exact .cons (by omega) whole targets others
      · simpa using last

/-! ## Induction over encounters -/

section
variable {R : List Encounter → Walk → Walk → Prop}

/-- What one import makes of the walk, and what goes on from one part of the walk to the next, holds
of all imports of a file. -/
theorem followAll_induction (refl : ∀ w, R [] w w)
    (single : ∀ e next, follow provider options e.statement e.before =
      .ok (e.link provider options) next → R [e] e.before next)
    (trans : ∀ es more w mid next, R es w mid → R more mid next → R (es ++ more) w next)
    (is : List ImportStatement) (w : Walk) :
    R (encountersWith provider options is w) w (stateAfter (followAll provider options is w)) := by
  induction is generalizing w with
  | nil => exact refl w
  | cons i is ih =>
    obtain ⟨mid, hfirst, -⟩ := follow_followed provider options ⟨i, w⟩
    obtain ⟨next, hothers, -⟩ := followAll_course provider options is mid
    have others := ih mid
    rw [hothers] at others
    rw [encountersWith_cons provider options hfirst, followAll_cons hfirst hothers]
    exact trans [⟨i, w⟩] _ w mid next (single ⟨i, w⟩ mid hfirst) others

/-- The same of the whole walk, if taking up a file that waits changes nothing. -/
theorem run_induction (refl : ∀ w, R [] w w)
    (take : ∀ w first pending, w.pending = first :: pending → R [] w { w with pending })
    (single : ∀ e next, follow provider options e.statement e.before =
      .ok (e.link provider options) next → R [e] e.before next)
    (trans : ∀ es more w mid next, R es w mid → R more mid next → R (es ++ more) w next)
    (count : Nat) (w : Walk) :
    R (encounters provider options count w) w (stateAfter (run provider options count w)) := by
  induction count generalizing w with
  | zero => exact refl w
  | succ count ih =>
    cases waiting : w.pending with
    | nil =>
      rw [encounters, run_of_ended waiting, waiting]
      exact refl w
    | cons first pending =>
      obtain ⟨mid, hlinks, -⟩ :=
        followAll_course provider options first.build.imports { w with pending }
      obtain ⟨stops, next, hstops, -⟩ := run_course provider options count mid
      have own := followAll_induction refl single trans first.build.imports { w with pending }
      have others := ih mid
      rw [hlinks] at own
      rw [hstops] at others
      rw [encounters_succ provider options waiting hlinks, run_of_waiting waiting hlinks hstops]
      exact trans _ _ w mid next (trans [] _ w _ mid (take w first pending waiting) own) others

end

end

end IdlFrontEnd.ImportWalk
