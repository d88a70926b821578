import IdlFrontEnd.Proofs.Unit.Export
import IdlFrontEnd.Source.Store

/-!
# Guarantees of loading

What a caller may rely on for all inputs, starting from an empty registry: every type of a loaded
unit is resolved, success and failure agree with what is reported, and no input causes a fault of
the program.
-/
namespace IdlFrontEnd

open Load

theorem Context.empty_named : Context.empty.registry.Named := Registry.empty_named

/-! ## Resolution -/

/-- In a loaded unit every type at every depth has a canonical name, in the declaration itself and
in all documents that are attached below its imports. The name is built in or that of a record. -/
theorem loadUnit_resolves (provider : SourceProvider) (options : Options) (path : String)
    (u : LoadedUnit) (c : Context) (loaded : loadUnit provider options path .empty = .ok u c) :
    ∀ d, (d = u.declaration ∨ ∃ inner, Attached u.imports inner ∧ d ∈ inner.types) →
      ∀ t, d.Mentions t → ∀ p : TypeExpr, p.Within t →
        ∃ name, p.head.canonical = some name ∧
          (name ∈ Registry.builtins ∨ ∃ r ∈ c.registry.records, r.canonical = name) := by
  have honest := loadUnit_honest Context.empty_named provider options path
  rw [loaded] at honest
  cases honest with
  | ok _ _ resolved =>
    intro d place t mentioned p within
    have known : d.Resolved c.registry := by
      rcases place with rfl | ⟨inner, attached, member⟩
      · exact resolved.own
      · exact resolved.below inner attached d member
    exact known.settled t (Declaration.mem_types_iff.2 mentioned) p
      (TypeExpr.mem_parts_iff.2 within)

/-- An interface with a list of parcelables from another file. -/
def listOfParcelables : FileStore :=
  (FileStore.empty.insert "I.aidl" "import a.B; interface I { List<B> f(in B[] b); }").insert
    "a/B.aidl" "package a; parcelable B { Map<String, B> m; }"

def searchHere : Options := { Options.empty with importPaths := ["."] }

/-- Whether a unit was loaded that has a document attached. -/
def hasDocument : EStateM.Result LoadError Context LoadedUnit → Bool
  | .ok u _ => u.imports.any (·.document.isSome)
  | .error _ _ => false

theorem listOfParcelables_loaded :
    ∃ u c, loadUnit listOfParcelables.provider searchHere "I.aidl" .empty = .ok u c ∧
      (u.imports.any (·.document.isSome)) = true := by
  have evaluated :
      hasDocument (loadUnit listOfParcelables.provider searchHere "I.aidl" .empty) = true := by
    decide +kernel
  cases h : loadUnit listOfParcelables.provider searchHere "I.aidl" .empty with
  | ok u c =>
    rw [h] at evaluated
    exact ⟨u, c, rfl, evaluated⟩
  | error e c =>
    rw [h] at evaluated
    cases evaluated

theorem listOfParcelables_resolves :
    ∃ u c, loadUnit listOfParcelables.provider searchHere "I.aidl" .empty = .ok u c ∧
      (u.imports.any (·.document.isSome)) = true ∧
      ∀ d, (d = u.declaration ∨ ∃ inner, Attached u.imports inner ∧ d ∈ inner.types) →
        ∀ t, d.Mentions t → ∀ p : TypeExpr, p.Within t →
          ∃ name, p.head.canonical = some name ∧
            (name ∈ Registry.builtins ∨ ∃ r ∈ c.registry.records, r.canonical = name) := by
  obtain ⟨u, c, loaded, attached⟩ := listOfParcelables_loaded
  exact ⟨u, c, loaded, attached, loadUnit_resolves _ _ _ u c loaded⟩

/-! ## Reports -/

/-- Loading appends some diagnostics, whatever the reporter held before, and the count of errors
grows by as many. There are none after success and after finding nothing but unstructured
parcelables, and some after every other error. -/
theorem loadUnit_reports (provider : SourceProvider) (options : Options) (path : String)
    (before : Reporter) :
    ∃ appended,
      (stateAfter (loadUnit provider options path ⟨.empty, before⟩)).reporter.diagnostics =
        before.diagnostics ++ appended ∧
      (stateAfter (loadUnit provider options path ⟨.empty, before⟩)).reporter.errors =
        before.errors + appended.length ∧
      (∀ u c, loadUnit provider options path ⟨.empty, before⟩ = .ok u c → appended = []) ∧
      (∀ c, loadUnit provider options path ⟨.empty, before⟩ = .error .foundParcelable c →
        appended = []) ∧
      ∀ e c, loadUnit provider options path ⟨.empty, before⟩ = .error e c →
        e ≠ .foundParcelable → appended ≠ [] := by
  have honest := @loadUnit_honest ⟨.empty, before⟩ Registry.empty_named provider options path
  cases h : loadUnit provider options path ⟨.empty, before⟩ with
  | ok u c =>
    rw [h] at honest
    cases honest with
    | ok same _ _ =>
      refine ⟨[], ?_, ?_, fun _ _ _ => rfl, ?_, ?_⟩
      · rw [List.append_nil]
        exact congrArg Reporter.diagnostics same
      · exact congrArg Reporter.errors same
      · intro _ same
        cases same
      · intro _ _ same
        cases same
  | error e c =>
    rw [h] at honest
    cases honest with
    | @error _ _ notes grown _ told _ =>
      refine ⟨notes, ?_, ?_, ?_, ?_, ?_⟩
      · unfold stateAfter
        rw [grown, Reporter.diagnostics_emitAll]
      · unfold stateAfter
        rw [grown, Reporter.errors_emitAll]
      · intro _ _ same
        cases same
      · intro _ same
        cases same
        exact told.2 rfl
      · intro _ _ same other none
        cases same
        exact other (told.1 none)

/-! ## Faults -/

/-- The result is not a fault, alone or in a failure to open a file, and none is in the log. -/
def Faultless {α : Type} (result : EStateM.Result LoadError Context α) : Prop :=
  (∀ f c, result ≠ .error (.fatal f) c) ∧ (∀ f c, result ≠ .error (.parseError (.fatal f)) c) ∧
    ∀ n ∈ (stateAfter result).log, n.severity ≠ .fatal

theorem Load.Honest.faultless {α : Type} {c : Context} {P : α → Context → Prop}
    {result : EStateM.Result LoadError Context α} (honest : Honest c P result)
    (none : c.reporter.diagnostics = []) :
    Faultless result := by
  cases honest with
  | ok reporter _ _ =>
    refine ⟨?_, ?_, ?_⟩
    · intro f _ same
      cases same
    · intro f _ same
      cases same
    · unfold stateAfter Context.log
      rw [reporter, none]
      intro n member
      cases member
  | error reporter errors _ mild =>
    refine ⟨?_, ?_, ?_⟩
    · intro f _ same
      cases same
      exact mild trivial
    · intro f _ same
      cases same
      exact mild trivial
    · unfold stateAfter Context.log
      rw [reporter, Reporter.diagnostics_emitAll, none]
      exact errors.not_fatal

/-- No input leads to a fault, in loading a unit or in either listing, and every unit that was
loaded can be exported. -/
theorem loading_faultless (provider : SourceProvider) (options : Options) (path : String) :
    Faultless (loadUnit provider options path .empty) ∧
      Faultless (listApi provider options .empty) ∧
      Faultless (listPreprocessed provider options .empty) ∧
      ∀ u c, loadUnit provider options path .empty = .ok u c →
        ∃ json, Export.unit u.declaration u.imports = .ok json := by
  have honest := loadUnit_honest Context.empty_named provider options path
  have units : Honest .empty (fun _ _ => True) (listApi provider options .empty) := by
    refine (forInputs_honest (fun input c named => @loadUnit_honest c named provider options input)
      options.inputFiles Context.empty_named).bind ?_
    intro units c named _
    exact .ok rfl named trivial
  have builds : Honest .empty (fun _ _ => True) (listPreprocessed provider options .empty) := by
    refine (forInputs_honest (fun input c named => @parse_honest c named provider input)
      options.inputFiles Context.empty_named).bind ?_
    intro builds c named _
    exact .ok rfl named trivial
  refine ⟨honest.faultless rfl, units.faultless rfl, builds.faultless rfl, ?_⟩
  intro u c loaded
  rw [loaded] at honest
  cases honest with
  | ok _ _ resolved => exact Export.unit_ok (fun _ => resolved.own.isFullyResolved) u.imports

theorem listOfParcelables_exported :
    ∃ u c, loadUnit listOfParcelables.provider searchHere "I.aidl" .empty = .ok u c ∧
      ∃ json, Export.unit u.declaration u.imports = .ok json := by
  obtain ⟨u, c, loaded, -⟩ := listOfParcelables_loaded
  exact ⟨u, c, loaded, (loading_faultless _ _ _).2.2.2 u c loaded⟩

end IdlFrontEnd
