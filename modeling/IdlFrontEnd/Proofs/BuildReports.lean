import IdlFrontEnd.Proofs.Build
import IdlFrontEnd.Source.Store

/-!
# What resolving a file reports

A file is resolved in one pass over all its types, each of them with what is nested in it. The pass
names whatever it can, reports every type that is left without a canonical name, once and where it
stands, and counts them. A type comes before its parameters, and the types come as the document
holds them: declaration by declaration, the fields of a parcelable one after the other, and of an
interface those of each method and then those of the constants.
-/
namespace IdlFrontEnd

namespace Document

/-- All types of the document with all that is nested in them, a type before its parameters. -/
def nodes (d : Document) : List TypeExpr := d.typeExprs.flatMap TypeExpr.parts

theorem mapTypes_typeExprs (f : TypeExpr → TypeExpr) (d : Document) :
    (d.mapTypes f).typeExprs = d.typeExprs.map f := by
  simp [mapTypes, typeExprs, List.flatMap_map, List.map_flatMap, Declaration.mapTypes_types]

theorem resolve_nodes (d : Document) (g : Registry) :
    (d.resolve g).nodes = d.nodes.map (.resolve (d.names g)) := by
  simp only [nodes, resolve, mapTypes_typeExprs, List.flatMap_map, List.map_flatMap,
    TypeExpr.parts_resolve]

/-- The types of the document, nested ones too, that have no canonical name. -/
def unresolved (d : Document) : List TypeExpr := d.nodes.filter (!·.isResolved)

/-- What is reported is what the pass leaves without a name, in the same order. -/
theorem unresolvedNotes_eq (d : Document) {g : Registry} (named : g.Named) :
    d.unresolvedNotes g = (d.resolve g).unresolved.map fun p =>
      .atPlace p.head.location (.unresolvedName p.head.written) := by
  have each (t : TypeExpr) :
      (if t.isKnown (d.names g) then []
        else (t.resolve (d.names g)).unresolvedParts.map fun p =>
          Diagnostic.atPlace p.head.location (.unresolvedName p.head.written)) =
        (t.resolve (d.names g)).unresolvedParts.map fun p =>
          .atPlace p.head.location (.unresolvedName p.head.written) := by
    split
    next known =>
      rw [TypeExpr.isKnown_eq_isFullyResolved (d.names_proper named)] at known
      rw [(TypeExpr.unresolvedParts_eq_nil_iff _).2 known, List.map_nil]
    · rfl
  simp only [unresolvedNotes, each, unresolved, nodes, resolve, mapTypes_typeExprs,
    List.filter_flatMap, List.map_flatMap, List.flatMap_map]
  rfl

end Document

namespace FileBuild

/-- The types of the file, nested ones too, in the order of its document. -/
def nodes (b : FileBuild) : List TypeExpr := (b.document.map Document.nodes).getD []

/-- Those of them that have no canonical name. -/
def unresolved (b : FileBuild) : List TypeExpr := b.nodes.filter (!·.isResolved)

/-- The canonical names that the file sees. -/
def names (b : FileBuild) (g : Registry) : String → Option String :=
  g.canonical? (b.imports.map ImportStatement.className)

theorem names_proper (b : FileBuild) {g : Registry} (named : g.Named) :
    TypeExpr.Proper (b.names g) := named.canonical?_proper _

section
variable {b : FileBuild} (opened : b.phase = .deferredRegistration) (c : Context)
include opened

/-- The pass reaches every type, at any depth. -/
theorem resolve_nodes :
    (b.resolve c).2.1.nodes = b.nodes.map (.resolve (b.names c.registry)) := by
  rw [resolve_eq opened]
  unfold nodes names imports
  cases b.document with
  | none => rfl
  | some d => exact d.resolve_nodes c.registry

theorem resolve_notes (named : c.registry.Named) :
    (b.document.map (·.unresolvedNotes c.registry)).getD [] =
      (b.resolve c).2.1.unresolved.map fun p =>
        .atPlace p.head.location (.unresolvedName p.head.written) := by
  rw [resolve_eq opened]
  unfold unresolved nodes
  cases b.document with
  | none => rfl
  | some d => exact d.unresolvedNotes_eq named

end

/-- Resolving a file that was opened gives every type in it, at any depth, the name that is known
for it, whatever comes of the others, and changes no name that a type has. For each type without a
name then there is one report, of its written name at its place, in the order of the document; there
are no other reports. The result is success if there is no such type and their number otherwise, and
the registry stays as it is. -/
theorem resolve_surfaces (b : FileBuild) (c : Context) (opened : b.phase = .deferredRegistration)
    (named : c.registry.Named) :
    let last := (b.resolve c).2.1
    let next := (b.resolve c).2.2
    (last.nodes.map TypeExpr.head = b.nodes.map fun p =>
        { p.head with canonical := p.head.canonical.or (b.names c.registry p.head.written) }) ∧
      (∃ notes, next.log = c.log ++ notes ∧
        notes.map (fun n => (n.severity, n.site, n.message)) = last.unresolved.map fun p =>
          (.error, .place p.head.location, s!"Failed to resolve '{p.head.written}'")) ∧
      ((b.resolve c).1 = .ok () ↔ last.unresolved = []) ∧
      (last.unresolved ≠ [] →
        (b.resolve c).1 = .error (.unresolved b.file last.unresolved.length)) ∧
      next.registry = c.registry := by
  intro last next
  have notes := resolve_notes opened c named
  have result : (b.resolve c).1 =
      if last.unresolved.isEmpty then .ok ()
      else .error (.unresolved b.file last.unresolved.length) := by
    rw [resolve_eq opened]
    simp only [notes, List.isEmpty_map, List.length_map, last]
  have log : next.log = c.log ++ (b.document.map (·.unresolvedNotes c.registry)).getD [] := by
    change (b.resolve c).2.2.log = _
    rw [resolve_eq opened]
    exact Reporter.diagnostics_emitAll _ _
  refine ⟨?_, ⟨_, log, ?_⟩, ?_, ?_, b.resolve_registry c⟩
  · rw [resolve_nodes opened, List.map_map]
    refine List.map_congr_left fun p _ => ?_
    rw [Function.comp_apply, TypeExpr.head_resolve, TypeExpr.resolve_head (b.names_proper named)]
  · rw [notes, List.map_map]
    rfl
  · rw [result]
    cases last.unresolved <;> simp
  · intro some
    rw [result, if_neg (by simpa using some)]

/-- An interface that mentions four types nobody knows. -/
def strangers : FileStore :=
  FileStore.empty.insert "I.aidl"
    "interface I { Map<Foo, List<Bar>> f(in List<int> x, in Baz y); const Qux Q = 1; }"

theorem strangers_surface :
    ∃ b c, fresh.parse .empty strangers.provider "I.aidl" = (.ok (), b, c) ∧
      b.phase = .deferredRegistration ∧ c.registry.Named ∧
      (b.resolve c).1 = .error (.unresolved "I.aidl" 4) ∧
      (b.resolve c).2.2.log.map Diagnostic.message =
        ["Failed to resolve 'Foo'", "Failed to resolve 'Bar'", "Failed to resolve 'Baz'",
         "Failed to resolve 'Qux'"] := by
  have evaluated :
      (fresh.parse .empty strangers.provider "I.aidl").1.isOk = true ∧
        (fresh.parse .empty strangers.provider "I.aidl").2.1.file = "I.aidl" ∧
        ((fresh.parse .empty strangers.provider "I.aidl").2.1.resolve
          (fresh.parse .empty strangers.provider "I.aidl").2.2).2.1.unresolved.map
            (·.head.written) = ["Foo", "Bar", "Baz", "Qux"] := by
    decide +kernel
  obtain ⟨notes, adds, outcome⟩ := parse_outcome .empty strangers.provider "I.aidl"
  generalize fresh.parse .empty strangers.provider "I.aidl" = answer at evaluated adds outcome ⊢
  obtain ⟨result, b, c⟩ := answer
  obtain ⟨ok, file, left⟩ := evaluated
  cases outcome with
  | error => cases ok
  | ok opened =>
    have named := adds.named Registry.empty_named
    obtain ⟨-, ⟨told, log, each⟩, -, failed, -⟩ := resolve_surfaces b c opened.phase named
    have before : c.log = [] := by
      rw [Context.log, adds.reporter]
      rfl
    have count := congrArg List.length left
    rw [List.length_map] at count
    refine ⟨b, c, rfl, opened.phase, named, ?_, ?_⟩
    · rw [failed (List.ne_nil_of_length_eq_add_one count), file, count]
      rfl
    · have texts := congrArg (List.map fun n => n.2.2) each
      simp only [List.map_map, Function.comp_def] at texts
      have reports := congrArg (List.map fun name => s!"Failed to resolve '{name}'") left
      rw [List.map_map] at reports
      rw [log, before, List.nil_append, texts]
      exact reports

end FileBuild

end IdlFrontEnd
