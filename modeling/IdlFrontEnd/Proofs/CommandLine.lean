import IdlFrontEnd.CommandLine.Outcome
import IdlFrontEnd.Proofs.Each
import IdlFrontEnd.Proofs.Unit.Guarantees

/-!
# What an exit status says

A command that succeeds has recorded nothing, and one that fails has recorded why. The exceptions
are few: bad settings and an output file that cannot be written are told on the standard error only,
and a file of unstructured parcelables is no mistake in itself. The listing commands write when all
inputs are done, so an input that fails leaves no trace but the status and what is told of it.

Each input of a listing starts on an empty registry, and as long as all succeed nothing is reported.
So every input up to the first that fails is loaded in the same context as it would be alone.
-/
namespace IdlFrontEnd

namespace Load

variable {α : Type} {c : Context} {P : α → Context → Prop} {step : String → Load α}

theorem Honest.log_of_ok {a : α} (honest : Honest .empty P (.ok a c)) : c.log = [] := by
  cases honest with
  | ok reporter _ _ => exact congrArg Reporter.diagnostics reporter

theorem Honest.log_of_error {e : LoadError} (honest : Honest .empty P (.error e c)) :
    c.log = [] ↔ e = .foundParcelable := by
  cases honest with
  | error reporter _ told _ =>
    rw [Context.log, reporter, Reporter.diagnostics_emitAll]
    exact told

/-- As long as nothing is reported, a step for each input comes to what it comes to alone. -/
theorem forInputs_alone (each : ∀ path c, c.registry.Named → Honest c P (step path c))
    (inputs : List String) :
    outcome (forInputs step inputs .empty) = inputs.mapM fun path => outcome (step path .empty) := by
  have start (c : Context) (silent : c.reporter = .empty) :
      ({ c with registry := .empty } : Context) = .empty := by
    rw [silent]
    rfl
  have separate : (outcome (forInputs step inputs .empty)).map (List.map id) =
      inputs.mapM fun path => outcome (step path .empty) := by
    refine forInputs_separate (fun c => c.reporter = .empty) ?_ ?_ inputs rfl
    · intro path c silent
      rw [start c silent, Except.map_id]
      rfl
    · intro path c a mid silent first
      have honest := each path .empty Context.empty_named
      rw [← start c silent, first] at honest
      cases honest with
      | ok same _ _ => exact same.trans silent
  simpa [Except.map_id] using separate

/-- A text made of what a step comes to for each input. -/
def listing (step : String → Load α) (text : List α → String) (inputs : List String) :
    Load String := do
  return text (← forInputs step inputs)

theorem listing_honest (each : ∀ path c, c.registry.Named → Honest c P (step path c))
    (text : List α → String) (inputs : List String) :
    Honest .empty (fun _ _ => True) (listing step text inputs .empty) := by
  refine (forInputs_honest each inputs Context.empty_named).bind ?_
  intro found c named _
  exact .ok rfl named trivial

theorem listing_alone (each : ∀ path c, c.registry.Named → Honest c P (step path c))
    (text : List α → String) (inputs : List String) :
    outcome (listing step text inputs .empty) =
      (inputs.mapM fun path => outcome (step path .empty)).map text := by
  rw [← forInputs_alone each inputs]
  unfold listing
  cases found : forInputs step inputs .empty with
  | error e c =>
    rw [bind_of_error found]
    rfl
  | ok as c =>
    rw [bind_of_ok found]
    rfl

end Load

namespace CommandLine

/-! ## What a command goes through -/

namespace Command

/-- The input files that a command line names. -/
def files : Command → List String
  | .check file | .exportUnit file => [file]
  | .preprocess _ files | .dumpApi files _ => files

/-- The options with these input files last. -/
def complete (command : Command) (options : Options) : Options :=
  { options with inputFiles := options.inputFiles ++ command.files }

/-- The listing that a command puts out, and the file that it goes to if one is named. -/
def listing? (command : Command) (provider : SourceProvider) (options : Options) :
    Option (Load String × Option String) :=
  match command with
  | .check _ | .exportUnit _ => none
  | .preprocess out _ => some (listPreprocessed provider (command.complete options), some out)
  | .dumpApi _ out => some (listApi provider (command.complete options), out)

/-- The files that a command opens by itself. The input files of the settings are for the listings;
other commands only look for imports among them. -/
def inputs (command : Command) (options : Options) : List String :=
  match command with
  | .check file | .exportUnit file => [file]
  | .preprocess .. | .dumpApi .. => (command.complete options).inputFiles

/-- What one input comes to alone. For a preprocessed listing it is only opened. -/
def attempt (command : Command) (provider : SourceProvider) (options : Options) (path : String) :
    Except LoadError Unit :=
  match command with
  | .preprocess .. => (outcome (Load.parse provider path .empty)).map fun _ => ()
  | .check _ | .exportUnit _ | .dumpApi .. =>
    (outcome (loadUnit provider (command.complete options) path .empty)).map fun _ => ()

end Command

section
variable {command : Command} {provider : SourceProvider} {options : Options}
  {listing : Load String} {out : Option String}

theorem Command.listing?_honest
    (lists : command.listing? provider options = some (listing, out)) :
    Load.Honest .empty (fun _ _ => True) (listing .empty) := by
  cases command with
  | check _ => cases lists
  | exportUnit _ => cases lists
  | preprocess out files =>
    cases lists
    exact Load.listing_honest (fun path c named => Load.parse_honest named provider path) _ _
  | dumpApi files out =>
    cases lists
    exact Load.listing_honest (fun path c named => loadUnit_honest named provider _ path) _ _

/-- A listing succeeds or fails as its inputs do alone, one after the other. -/
theorem Command.listing?_outcome
    (lists : command.listing? provider options = some (listing, out)) :
    (outcome (listing .empty)).map (fun _ => ()) =
      ((command.inputs options).mapM (command.attempt provider options)).map fun _ => () := by
  have unvalued {α β : Type} (x : Except LoadError α) (f : α → β) :
      (x.map f).map (fun _ => ()) = x.map fun _ => () := by cases x <;> rfl
  cases command with
  | check _ => cases lists
  | exportUnit _ => cases lists
  | preprocess out files =>
    cases lists
    have alone := Load.listing_alone
      (fun path c named => Load.parse_honest (c := c) named provider path)
    unfold attempt
    rw [mapM_map, unvalued]
    exact (congrArg _ (alone _ _)).trans (unvalued _ _)
  | dumpApi files out =>
    cases lists
    have alone := Load.listing_alone (fun path c named =>
      loadUnit_honest (c := c) named provider (complete (.dumpApi files out) options) path)
    unfold attempt
    rw [mapM_map, unvalued]
    exact (congrArg _ (alone _ _)).trans (unvalued _ _)

theorem Command.listing?_isOk
    (lists : command.listing? provider options = some (listing, out)) :
    (outcome (listing .empty)).isOk = true ↔
      ∀ path ∈ command.inputs options, (command.attempt provider options path).isOk = true := by
  rw [← isOk_map _ fun _ => (), listing?_outcome lists, isOk_map, isOk_mapM]

theorem Command.listing?_error {e : LoadError}
    (lists : command.listing? provider options = some (listing, out))
    (failed : outcome (listing .empty) = .error e) :
    ∃ path ∈ command.inputs options, command.attempt provider options path = .error e := by
  have unvalued := listing?_outcome lists
  rw [failed] at unvalued
  obtain ⟨before, path, after, all, -, found⟩ := mapM_eq_error (map_eq_error_iff.1 unvalued.symm)
  exact ⟨path, by simp [all], found⟩

end

/-- What makes a command fail with nothing in the log. -/
inductive Invocation.FailsInSilence (read : String → Except String Options) (i : Invocation)
    (tree : FileTree) : Prop
  | badSettings {path : String} (named : i.config = some path)
    (bad : ∀ text, tree.read path = .ok text → ∃ message, read text = .error message)
  | foundParcelable {options : Options} {path : String} (settings : i.allOptions read tree = .ok options)
    (input : path ∈ i.command.inputs options)
    (found : i.command.attempt tree.provider options path = .error .foundParcelable)
  | unwritable {options : Options} {listing : Load String} {path text : String}
    (settings : i.allOptions read tree = .ok options)
    (lists : i.command.listing? tree.provider options = some (listing, some path))
    (listed : outcome (listing .empty) = .ok text)
    (failed : (Invocation.writeFile path text tree).1 ≠ none)

/-! ## Status and log -/

namespace Outcome

/-- The status of a failure goes with a log, up to an excuse, and that of a success without one. -/
inductive Agrees (excuse : Prop) (o : Outcome) : Prop
  | done (status : o.status = 0) (silent : o.log = [])
  | told (status : o.status = 1) (loud : o.log ≠ [])
  | excused (status : o.status = 1) (excuse : excuse)

theorem Agrees.imp {excuse other : Prop} {o : Outcome} (agrees : o.Agrees excuse)
    (weaker : excuse → other) : o.Agrees other := by
  cases agrees with
  | done status silent => exact .done status silent
  | told status loud => exact .told status loud
  | excused status excuse => exact .excused status (weaker excuse)

/-- A failure that leaves nothing on the standard output and the files as they were. -/
structure Traceless (o : Outcome) (tree : FileTree) : Prop where
  status : o.status = 1
  output : o.output = ""
  tree : o.tree = tree

end Outcome

namespace Invocation

variable {read : String → Except String Options} {i : Invocation} {tree : FileTree}
  {options : Options} {excuse : Prop}

theorem failure_agrees {α : Type} {P : α → Context → Prop} {e : LoadError} {c : Context}
    (honest : Load.Honest .empty P (.error e c)) (excused : e = .foundParcelable → excuse) :
    (i.failure e c.log tree).Agrees excuse := by
  by_cases silent : e = .foundParcelable
  · exact .excused rfl (excused silent)
  · exact .told rfl fun none => silent (honest.log_of_error.1 none)

theorem failure_traceless (i : Invocation) (e : LoadError) (log : List Diagnostic)
    (tree : FileTree) : (i.failure e log tree).Traceless tree := ⟨rfl, rfl, rfl⟩

theorem loadFile_honest (options : Options) (file : String) (tree : FileTree) :
    Load.Honest .empty (fun u c => u.Resolved c.registry) (loadFile options file tree .empty) :=
  loadUnit_honest Context.empty_named _ _ _

theorem check_agrees (i : Invocation) (options : Options) (file : String) (tree : FileTree) :
    (i.check options file tree).Agrees
      (outcome (loadFile options file tree .empty) = .error .foundParcelable) := by
  have honest := loadFile_honest options file tree
  unfold check
  split
  next unit c loaded =>
    rw [loaded] at honest
    exact .done rfl honest.log_of_ok
  next c skipped =>
    rw [skipped] at honest
    split
    · exact failure_agrees honest fun _ => by rw [skipped]; rfl
    · exact .done rfl (honest.log_of_error.2 rfl)
  next e c _ failed =>
    rw [failed] at honest
    exact failure_agrees honest fun same => by rw [failed, same]; rfl

theorem exportUnit_agrees (i : Invocation) (options : Options) (file : String) (tree : FileTree) :
    (i.exportUnit options file tree).Agrees
      (outcome (loadFile options file tree .empty) = .error .foundParcelable) := by
  have honest := loadFile_honest options file tree
  unfold exportUnit
  cases loaded : loadFile options file tree .empty with
  | error e c =>
    rw [loaded] at honest
    exact failure_agrees honest fun same => congrArg Except.error same
  | ok unit c =>
    rw [loaded] at honest
    have silent := honest.log_of_ok
    cases honest with
    | ok _ _ resolved =>
      obtain ⟨json, exported⟩ :=
        Export.unit_ok (fun _ => resolved.own.isFullyResolved) unit.imports
      dsimp only
      rw [exported]
      exact .done rfl silent

variable {P : String → Context → Prop} {listing : Load String}

theorem list_agrees (honest : Load.Honest .empty P (listing .empty)) (i : Invocation)
    (out : Option String) (tree : FileTree) :
    (i.list listing out tree).Agrees
      (outcome (listing .empty) = .error .foundParcelable ∨
        ∃ path text, out = some path ∧ outcome (listing .empty) = .ok text ∧
          (writeFile path text tree).1 ≠ none) := by
  unfold list
  cases listed : listing .empty with
  | error e c =>
    rw [listed] at honest
    exact failure_agrees honest fun same => .inl (congrArg Except.error same)
  | ok text c =>
    rw [listed] at honest
    have silent := honest.log_of_ok
    cases out with
    | none => exact .done rfl silent
    | some path =>
      dsimp only
      cases written : writeFile path text tree with
      | mk problem left =>
        cases problem with
        | none => exact .done rfl silent
        | some message => exact .excused rfl (.inr ⟨path, text, rfl, rfl, by simp [written]⟩)

theorem list_traceless (failed : (outcome (listing .empty)).isOk = false) (i : Invocation)
    (out : Option String) (tree : FileTree) : (i.list listing out tree).Traceless tree := by
  unfold list
  cases listed : listing .empty with
  | error e c => exact failure_traceless i e c.log tree
  | ok text c =>
    rw [listed] at failed
    cases failed

/-! ## A whole run -/

theorem badSettings_of_allOptions {message : String}
    (failed : i.allOptions read tree = .error message) : i.FailsInSilence read tree := by
  unfold allOptions at failed
  split at failed
  · cases failed
  next path named =>
    refine .badSettings named fun text found => ?_
    rw [found] at failed
    dsimp only at failed
    split at failed
    · cases failed
    next message invalid => exact ⟨message, invalid⟩

theorem run_eq_list {out : Option String} (settings : i.allOptions read tree = .ok options)
    (lists : i.command.listing? tree.provider options = some (listing, out)) :
    i.run read tree = i.list listing out tree := by
  unfold run
  rw [settings]
  cases command : i.command with
  | check _ | exportUnit _ =>
    rw [command] at lists
    cases lists
  | preprocess _ _ | dumpApi _ _ =>
    rw [command] at lists
    cases lists
    rfl

theorem run_agrees (read : String → Except String Options) (i : Invocation) (tree : FileTree) :
    (i.run read tree).Agrees (i.FailsInSilence read tree) := by
  cases settings : i.allOptions read tree with
  | error message =>
    unfold run
    rw [settings]
    exact .excused rfl (badSettings_of_allOptions settings)
  | ok options =>
    cases lists : i.command.listing? tree.provider options with
    | some puts =>
      obtain ⟨listing, out⟩ := puts
      rw [run_eq_list settings lists]
      refine (list_agrees (Command.listing?_honest lists) i out tree).imp ?_
      rintro (found | ⟨path, text, rfl, listed, failed⟩)
      · obtain ⟨path, input, alone⟩ := Command.listing?_error lists found
        exact .foundParcelable settings input alone
      · exact .unwritable settings lists listed failed
    | none =>
      have single {file : String} (inputs : i.command.inputs options = [file])
          (attempt : i.command.attempt tree.provider options file =
            (outcome (loadFile options file tree .empty)).map fun _ => ())
          (found : outcome (loadFile options file tree .empty) = .error .foundParcelable) :
          i.FailsInSilence read tree := by
        have input : file ∈ i.command.inputs options := by simp [inputs]
        refine .foundParcelable settings input ?_
        rw [attempt]
        exact map_eq_error_iff.2 found
      unfold run
      rw [settings]
      cases command : i.command with
      | check file =>
        rw [command] at single
        exact (check_agrees i options file tree).imp (single rfl rfl)
      | exportUnit file =>
        rw [command] at single
        exact (exportUnit_agrees i options file tree).imp (single rfl rfl)
      | preprocess _ _ | dumpApi _ _ =>
        rw [command] at lists
        cases lists

theorem run_traceless_of_settings {message : String} (failed : i.allOptions read tree = .error message) :
    (i.run read tree).Traceless tree := by
  unfold run
  rw [failed]
  exact ⟨rfl, rfl, rfl⟩

theorem run_traceless_of_input {path : String} (settings : i.allOptions read tree = .ok options)
    (lists : (i.command.listing? tree.provider options).isSome = true)
    (input : path ∈ i.command.inputs options)
    (failed : (i.command.attempt tree.provider options path).isOk = false) :
    (i.run read tree).Traceless tree := by
  obtain ⟨⟨listing, out⟩, lists⟩ := Option.isSome_iff_exists.1 lists
  rw [run_eq_list settings lists]
  refine list_traceless (Bool.eq_false_iff.2 fun succeeds => ?_) i out tree
  have alone := (Command.listing?_isOk lists).1 succeeds path input
  rw [failed] at alone
  cases alone

end Invocation

/-- An accepted command line ends with 0 or 1, whatever it asks for and however settings are read. With
0 nothing is in the log; with 1 something is, unless the settings are bad, a file has nothing but
unstructured parcelables or the output file cannot be written. If the settings are bad or any input
of a listing fails alone, the run fails and leaves nothing behind. -/
theorem run_accounts_for_status (read : String → Except String Options) (i : Invocation)
    (tree : FileTree) :
    ((i.run read tree).status = 0 ∨ (i.run read tree).status = 1) ∧
      ((i.run read tree).status = 0 → (i.run read tree).log = []) ∧
      ((i.run read tree).status = 1 → (i.run read tree).log = [] → i.FailsInSilence read tree) ∧
      (∀ message, i.allOptions read tree = .error message → (i.run read tree).Traceless tree) ∧
      ∀ options, i.allOptions read tree = .ok options →
        (i.command.listing? tree.provider options).isSome = true →
          ∀ path ∈ i.command.inputs options,
            (i.command.attempt tree.provider options path).isOk = false →
              (i.run read tree).Traceless tree := by
  have agrees := i.run_agrees read tree
  refine ⟨?_, ?_, ?_, fun _ => Invocation.run_traceless_of_settings,
    fun _ settings lists _ => Invocation.run_traceless_of_input settings lists⟩
  · cases agrees with
    | done status _ => exact .inl status
    | told status _ => exact .inr status
    | excused status _ => exact .inr status
  · intro succeeds
    cases agrees with
    | done _ silent => exact silent
    | told status _ => exact absurd (succeeds.symm.trans status) (by decide)
    | excused status _ => exact absurd (succeeds.symm.trans status) (by decide)
  · intro fails silent
    cases agrees with
    | done status _ => exact absurd (fails.symm.trans status) (by decide)
    | told _ loud => exact absurd silent loud
    | excused _ excuse => exact excuse

/-- One input is named in the line and is there, the other one is named in the settings and is not. -/
def oneInputGone : List String :=
  ["--config", "aidl.toml", "preprocess", "out/types.txt", "B.aidl"]

def onlyB : FileTree :=
  (FileTree.empty.withFile ["B.aidl"] "package b; parcelable B;".toUTF8).withFile ["aidl.toml"]
    "[options]\ninput_files = [\"gone.aidl\"]\n".toUTF8

theorem oneInputGone_traceless :
    ∃ i options, Readers.own.words oneInputGone = .ok i ∧
      i.allOptions Readers.own.settings onlyB = .ok options ∧
      i.command.inputs options = ["gone.aidl", "B.aidl"] ∧
      (i.command.attempt onlyB.provider options "B.aidl").isOk = true ∧
      (i.command.attempt onlyB.provider options "gone.aidl").isOk = false ∧
      (i.run Readers.own.settings onlyB).Traceless onlyB := by
  let i : Invocation :=
    ⟨.preprocess "out/types.txt" ["B.aidl"], .text, false, [], [], false, false, some "aidl.toml"⟩
  let options : Options := ⟨[], [], ["gone.aidl"], false, false⟩
  have settings : i.allOptions Readers.own.settings onlyB = .ok options := by decide +kernel
  obtain ⟨-, -, -, -, inputs⟩ := run_accounts_for_status Readers.own.settings i onlyB
  have gone := inputs options settings rfl "gone.aidl" (by decide) (by decide +kernel)
  exact ⟨i, options, by decide +kernel, settings, rfl, by decide +kernel, by decide +kernel, gone⟩

end CommandLine

end IdlFrontEnd
