import IdlFrontEnd.Proofs.Build
import IdlFrontEnd.Proofs.Lookup
import IdlFrontEnd.Source.Store
import Mathlib.Data.List.Induction

/-!
# What opening a file changes

A file that cannot be read, or that has a mistake in it, leaves nothing behind but reports: none of
its types is in the registry and its build has no document. Whether it has a mistake is told by a
count of errors that it shares with all other files. Of a file without a mistake every type goes
into the registry whose canonical name is free when it is its turn, whatever came of those before
it; each other type is reported, and with one of these the file does not count as opened.
-/
namespace IdlFrontEnd

/-- The elements that stand to those before them in a certain way. -/
def chosen {α : Type} (p : List α → α → Bool) (as : List α) : List α :=
  (as.zipIdx.filter fun (a, i) => p (as.take i) a).map Prod.fst

theorem chosen_concat {α : Type} (p : List α → α → Bool) (as : List α) (a : α) :
    chosen p (as ++ [a]) = chosen p as ++ if p as a then [a] else [] := by
  have earlier : (as.zipIdx.filter fun (x, i) => p ((as ++ [a]).take i) x) =
      as.zipIdx.filter fun (x, i) => p (as.take i) x := by
    refine List.filter_congr ?_
    rintro ⟨x, i⟩ member
    have bound : i < as.length := by simpa using List.snd_lt_of_mem_zipIdx member
    dsimp only
    rw [List.take_append_of_le_length (Nat.le_of_lt bound)]
  have last : ([a].zipIdx as.length).filter (fun (x, i) => p ((as ++ [a]).take i) x) =
      if p as a then [(a, as.length)] else [] := by
    simp [List.filter_cons]
  unfold chosen
  rw [List.zipIdx_append, List.filter_append, earlier, Nat.zero_add, last, List.map_append]
  split <;> rfl

/-! ## Declaring types -/

namespace Registry

/-- Neither a parsed type nor one of these declarations has the canonical name. -/
def IsFree (g : Registry) (before : List Declaration) (name : String) : Prop :=
  (∀ r ∈ g.defined.records, r.canonical ≠ name) ∧ ∀ d ∈ before, d.canonical ≠ name

instance (g : Registry) (before : List Declaration) (name : String) :
    Decidable (g.IsFree before name) :=
  inferInstanceAs (Decidable (_ ∧ _))

/-- The declarations whose canonical names no parsed type and no earlier declaration has. -/
def newcomers (g : Registry) : List Declaration → List Declaration :=
  chosen fun before d => g.IsFree before d.canonical

/-- All other declarations. -/
def repeats (g : Registry) : List Declaration → List Declaration :=
  chosen fun before d => ¬ g.IsFree before d.canonical

theorem declare_concat (g : Registry) (ds : List Declaration) (d : Declaration) :
    g.declare (ds ++ [d]) =
      match (g.declare ds).1.addDefined? (.ofDeclaration d) with
      | some next => (next, (g.declare ds).2)
      | none => ((g.declare ds).1,
          (g.declare ds).2 ++ [.atPlace d.location (.redefinedType d.canonical)]) := by
  induction ds generalizing g with
  | nil =>
    cases added : g.addDefined? (.ofDeclaration d) <;> simp only [declare, added, List.nil_append]
  | cons e ds ih =>
    rw [List.cons_append, declare]
    cases added : g.addDefined? (.ofDeclaration e) with
    | some next => simp only [declare, added, ih next]
    | none =>
      simp only [declare, added, ih g]
      cases (g.declare ds).1.addDefined? (.ofDeclaration d) <;> rfl

theorem declare_holds (g : Registry) (ds : List Declaration) :
    (g.declare ds).1.defined.Holds (g.defined.records ++ ds.map .ofDeclaration) := by
  induction ds using List.reverseRecOn with
  | nil =>
    constructor
    rw [List.map_nil, List.append_nil, TypeRecord.firsts_of_distinct g.defined.ascending.distinct]
    exact .refl _
  | append_singleton ds d ih =>
    have more := ih.add (.ofDeclaration d)
    rw [declare_concat, List.map_append, ← List.append_assoc]
    unfold addDefined?
    cases added : (g.declare ds).1.defined.add? (.ofDeclaration d) with
    | some table => simpa [added] using more
    | none => simpa [added] using more

theorem isFree_iff (g : Registry) (before : List Declaration) (d : Declaration) :
    g.IsFree before d.canonical ↔
      ∀ x ∈ g.defined.records ++ before.map TypeRecord.ofDeclaration,
        x.canonical ≠ (TypeRecord.ofDeclaration d).canonical := by
  rw [List.forall_mem_append, List.forall_mem_map]
  rfl

/-- A type is added exactly if its canonical name is free. -/
theorem declare_accepts_iff (g : Registry) (ds : List Declaration) (d : Declaration) :
    ((g.declare ds).1.addDefined? (.ofDeclaration d)).isSome = true ↔
      g.IsFree ds d.canonical := by
  rw [addDefined?, Option.isSome_map, (g.declare_holds ds).accepts_iff, isFree_iff]

theorem firsts_newcomers (g : Registry) (ds : List Declaration) :
    TypeRecord.firsts (g.defined.records ++ ds.map .ofDeclaration) =
      g.defined.records ++ (g.newcomers ds).map .ofDeclaration := by
  induction ds using List.reverseRecOn with
  | nil =>
    rw [List.map_nil, List.append_nil, TypeRecord.firsts_of_distinct g.defined.ascending.distinct]
    exact (List.append_nil _).symm
  | append_singleton ds d ih =>
    have free := g.isFree_iff ds d
    rw [List.map_append, List.map_singleton, ← List.append_assoc, TypeRecord.firsts_concat, ih,
      newcomers, chosen_concat]
    by_cases own : g.IsFree ds d.canonical
    · rw [if_neg (by simpa using free.1 own), if_pos (decide_eq_true own), List.map_append,
        List.append_assoc]
      rfl
    · rw [if_pos (by simpa using mt free.2 own), if_neg (by simpa using own), List.append_nil]

theorem declare_records (g : Registry) (ds : List Declaration) :
    (g.declare ds).1.defined.records =
      TypeRecord.sorted (g.defined.records ++ (g.newcomers ds).map .ofDeclaration) := by
  rw [(g.declare_holds ds).records_eq, firsts_newcomers]

theorem declare_notes (g : Registry) (ds : List Declaration) :
    (g.declare ds).2 =
      (g.repeats ds).map fun d => .atPlace d.location (.redefinedType d.canonical) := by
  induction ds using List.reverseRecOn with
  | nil => rfl
  | append_singleton ds d ih =>
    have accepts := g.declare_accepts_iff ds d
    rw [declare_concat, repeats, chosen_concat]
    cases added : (g.declare ds).1.addDefined? (.ofDeclaration d) with
    | some next =>
      have free := accepts.1 (by rw [added]; rfl)
      simp [free, ih, repeats]
    | none =>
      have taken : ¬ g.IsFree ds d.canonical := by
        rw [← accepts, added]
        exact Bool.false_ne_true
      simp [taken, ih, repeats]

end Registry

/-! ## Opening a file -/

namespace FileBuild

/-- What a build can be. It starts fresh; then it opens a file and resolves it, perhaps out of turn,
and its document may be changed or taken away. -/
inductive Reached : FileBuild → Prop
  | start : Reached fresh
  | parse {b : FileBuild} (before : Reached b) (c : Context) (provider : SourceProvider)
      (path : String) : Reached (b.parse c provider path).2.1
  | resolve {b : FileBuild} (before : Reached b) (c : Context) : Reached (b.resolve c).2.1
  | change {b : FileBuild} (before : Reached b) (f : Document → Document) :
      Reached { b with document := b.document.map f }
  | take {b : FileBuild} (before : Reached b) : Reached b.takeDocument.2

/-- Nothing was done yet to a build that is ready. -/
theorem Reached.eq_fresh {b : FileBuild} (reached : b.Reached) (ready : b.phase = .ready) :
    b = fresh := by
  induction reached with
  | start => rfl
  | @parse b before c provider path ih =>
    by_cases turn : b.phase = .ready
    · rw [parse_eq turn, openedAs_phase] at ready
      generalize (c.openFile provider path).1 = opened at ready
      cases opened <;> cases ready
    · rw [parse_refused turn] at ready
      exact absurd ready turn
  | @resolve b before c ih =>
    by_cases turn : b.phase = .deferredRegistration
    · rw [resolve_eq turn] at ready
      cases ready
    · rw [resolve_refused turn] at ready ⊢
      exact ih ready
  | change before f ih =>
    rw [ih ready]
    rfl
  | take before ih =>
    rw [FileBuild.takeDocument, ih ready]
    rfl

/-- The result of opening a file, the build and what it shares with others. -/
abbrev Answer := Except ParseFailure Unit × FileBuild × Context

/-- Nothing came of opening a file but these reports. -/
structure CameToNothing (c : Context) (failure : ParseFailure) (notes : List Diagnostic)
    (answer : Answer) : Prop where
  result : answer.1 = .error failure
  document : answer.2.1.document = none
  registry : answer.2.2.registry = c.registry
  log : answer.2.2.log = c.log ++ notes

/-- The types of a file were added if their canonical names were free, and reported if not. -/
structure TypesAdded (c : Context) (path : String) (file : Grammar.SourceFile) (answer : Answer) :
    Prop where
  defined : answer.2.2.registry.defined.records =
    TypeRecord.sorted
      (c.registry.defined.records ++ (c.registry.newcomers file.types).map .ofDeclaration)
  preprocessed : answer.2.2.registry.preprocessed = c.registry.preprocessed
  log : answer.2.2.log = c.log ++ (c.registry.repeats file.types).map fun d =>
    .atPlace d.location (.redefinedType d.canonical)
  accepted : answer.1 = .ok () ↔ c.registry.repeats file.types = []
  refused : c.registry.repeats file.types ≠ [] →
    answer.1 = .error (.malformed path (c.registry.repeats file.types).length)
  document : answer.2.1.document = some file.document

/-- Whatever a build is asked to open, no record goes away or changes. A build that is ready opens
its file. If the file cannot be read, or is read with a mistake, then that is reported, the registry
stays as it was and there is no document. Otherwise the types with a free canonical name are added,
each of the others is reported, and the file counts as opened if there are no others. -/
theorem parse_effects {b : FileBuild} (reached : b.Reached) (c : Context)
    (provider : SourceProvider) (path : String) :
    c.registry.GrowsTo (b.parse c provider path).2.2.registry ∧
      (b.phase = .ready →
        (∀ e, provider.read path = .error e →
          CameToNothing c (.unreadable path e) [.atFile path (.unreadable e)]
            (b.parse c provider path)) ∧
        ∀ text file notes, provider.read path = .ok text →
          Grammar.SourceFile.ofText path text = (file, notes) →
          (notes ≠ [] →
            CameToNothing c (.malformed path notes.length) notes (b.parse c provider path)) ∧
          (notes = [] → TypesAdded c path file (b.parse c provider path))) := by
  refine ⟨b.parse_grows c provider path, fun ready => ?_⟩
  obtain rfl := reached.eq_fresh ready
  rw [parse_eq ready]
  refine ⟨fun e read => ?_, fun text file notes read parsed => ⟨fun some => ?_, ?_⟩⟩
  · rw [c.openFile_unreadable read]
    exact ⟨rfl, rfl, rfl, Reporter.diagnostics_emitAll _ _⟩
  · rw [c.openFile_malformed read parsed some]
    exact ⟨rfl, rfl, rfl, Reporter.diagnostics_emitAll _ _⟩
  · rintro rfl
    rw [c.openFile_built read parsed, Registry.declare_notes, List.length_map]
    refine ⟨Registry.declare_records _ _, (c.registry.declare_grows _).preprocessed,
      Reporter.diagnostics_emitAll _ _, ?_, fun some => ?_, rfl⟩
    · cases c.registry.repeats file.types <;> simp [Opened.result, Except.map]
    · obtain ⟨d, ds, others⟩ := List.exists_cons_of_ne_nil some
      rw [others]
      rfl

/-- A file with the same type twice and one that is known before, and a file with a mistake. -/
def twins : FileStore :=
  (FileStore.empty.insert "Twins.aidl"
      "package p; parcelable Foo; parcelable Bar; parcelable Foo;").insert
    "Broken.aidl" "package p; parcelable Baz; parcelable ;"

/-- The type `p.Bar` is known, and something has been reported. -/
def barKnown : Context :=
  ⟨(Registry.empty.addDefined? ⟨.interface, "Bar", ["p"]⟩).getD .empty,
    Reporter.empty.emit (.atFile "Bar.aidl" .nothingDefined)⟩

theorem twins_effects :
    (∃ e, CameToNothing barKnown (.unreadable "Missing.aidl" e)
      [.atFile "Missing.aidl" (.unreadable e)]
      (fresh.parse barKnown twins.provider "Missing.aidl")) ∧
    (∃ notes, notes.map Diagnostic.message = ["syntax error: expected identifier, got ';'"] ∧
      CameToNothing barKnown (.malformed "Broken.aidl" 1) notes
        (fresh.parse barKnown twins.provider "Broken.aidl")) ∧
    ∃ file, (barKnown.registry.newcomers file.types).map Declaration.canonical = ["p.Foo"] ∧
      (barKnown.registry.repeats file.types).map Declaration.canonical = ["p.Bar", "p.Foo"] ∧
      TypesAdded barKnown "Twins.aidl" file
        (fresh.parse barKnown twins.provider "Twins.aidl") := by
  obtain ⟨missing, -⟩ := (parse_effects .start barKnown twins.provider "Missing.aidl").2 rfl
  obtain ⟨-, broken⟩ := (parse_effects .start barKnown twins.provider "Broken.aidl").2 rfl
  obtain ⟨-, whole⟩ := (parse_effects .start barKnown twins.provider "Twins.aidl").2 rfl
  refine ⟨⟨_, missing _ rfl⟩, ?_, ?_⟩
  · have messages : (Grammar.SourceFile.ofText "Broken.aidl"
        "package p; parcelable Baz; parcelable ;").2.map Diagnostic.message =
          ["syntax error: expected identifier, got ';'"] := by
      decide +kernel
    have count := congrArg List.length messages
    rw [List.length_map, List.length_singleton] at count
    have told := (broken _ _ _ rfl (Prod.eta _).symm).1 (List.ne_nil_of_length_eq_add_one count)
    rw [count] at told
    exact ⟨_, messages, told⟩
  · have silent : (Grammar.SourceFile.ofText "Twins.aidl"
        "package p; parcelable Foo; parcelable Bar; parcelable Foo;").2 = [] := by
      decide +kernel
    exact ⟨_, by decide +kernel, by decide +kernel, (whole _ _ _ rfl (Prod.eta _).symm).2 silent⟩

end FileBuild

end IdlFrontEnd
