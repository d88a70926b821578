import IdlFrontEnd.Check.Constants
import IdlFrontEnd.Check.MethodIds
import IdlFrontEnd.Proofs.Check.NestedTypes
import IdlFrontEnd.Proofs.Declaration
import IdlFrontEnd.Proofs.Registry
import IdlFrontEnd.Unit.Placement

/-!
# What does not depend on places

Where a declaration stands and the comments around it only show in the places of reports. Without
them its types have the same names and resolve to the same names, its methods get the same numbers,
and every check comes to the same verdict with the same reports, up to their places.
-/
namespace IdlFrontEnd

/-! ## Without places and comments -/

def Site.placeless : Site → Site
  | .place _ => .place .nowhere
  | other => other

def Diagnostic.placeless (n : Diagnostic) : Diagnostic := { n with site := n.site.placeless }

def Fatal.placeless (f : Fatal) : Fatal := { f with site := f.site.placeless }

@[simp] theorem Diagnostic.placeless_atPlace (location : Location) (cause : Cause) :
    (atPlace location cause).placeless = atPlace .nowhere cause := rfl

@[simp] theorem Diagnostic.placeless_atFile (name : String) (cause : Cause) :
    (atFile name cause).placeless = atFile name cause := rfl

/-- Reports that are alike up to places have the same messages. -/
theorem Diagnostic.messages_of_placeless {notes others : List Diagnostic}
    (same : notes.map placeless = others.map placeless) :
    notes.map message = others.map message := by
  have messages := congrArg (List.map message) same
  rwa [List.map_map, List.map_map] at messages

namespace TypeHead

def placeless (h : TypeHead) : TypeHead := { h with location := .nowhere, comments := "" }

theorem placeless_resolve (find : String → Option String) (h : TypeHead) :
    (h.resolve find).placeless = h.placeless.resolve find := by
  cases found : h.canonical <;> simp [resolve, placeless, found]

end TypeHead

def TypeExpr.placeless : TypeExpr → TypeExpr := mapHeads TypeHead.placeless

def Literal.placeless (v : Literal) : Literal := { v with location := .nowhere }

def Field.placeless (f : Field) : Field :=
  ⟨.nowhere, f.type.placeless, f.name, f.default.map Literal.placeless⟩

def Argument.placeless (a : Argument) : Argument := ⟨.nowhere, a.written, a.type.placeless, a.name⟩

def Method.placeless (m : Method) : Method :=
  ⟨.nowhere, m.oneway, "", m.returnType.placeless, m.name, m.arguments.map Argument.placeless, m.id⟩

def Constant.placeless (c : Constant) : Constant :=
  ⟨.nowhere, c.type.placeless, c.name, c.value.placeless⟩

def QualifiedName.placeless (n : QualifiedName) : QualifiedName := ⟨.nowhere, n.terms, ""⟩

def Body.placeless : Body → Body
  | .parcelable name cppHeader => .parcelable name.placeless cppHeader
  | .structured name fields => .structured name.placeless (fields.map Field.placeless)
  | .interface oneway methods constants =>
    .interface oneway (methods.map Method.placeless) (constants.map Constant.placeless)

def Header.placeless (h : Header) : Header := { h with location := .nowhere, comments := "" }

/-- The declaration without its places and comments. -/
def Declaration.placeless (d : Declaration) : Declaration := ⟨d.header.placeless, d.body.placeless⟩

/-! ## Types -/

namespace TypeExpr

@[simp] theorem placeless_head (t : TypeExpr) : t.placeless.head = t.head.placeless :=
  head_mapHeads _ t

@[simp] theorem placeless_name (t : TypeExpr) : t.placeless.name = t.name := by
  unfold name
  rw [placeless_head]
  rfl

@[simp] theorem placeless_params (t : TypeExpr) :
    t.placeless.params = t.params.map (List.map placeless) := params_mapHeads _ t

@[simp] theorem placeless_parts (t : TypeExpr) : t.placeless.parts = t.parts.map placeless :=
  parts_mapHeads _ t

@[simp] theorem placeless_isResolved (t : TypeExpr) : t.placeless.isResolved = t.isResolved := by
  unfold isResolved
  rw [placeless_head]
  rfl

@[simp] theorem placeless_isFullyResolved (t : TypeExpr) :
    t.placeless.isFullyResolved = t.isFullyResolved := by
  simp [isFullyResolved, Function.comp_def]

@[simp] theorem placeless_text (t : TypeExpr) : t.placeless.text = t.text := by
  have name (h : TypeHead) : h.placeless.name = h.name := rfl
  have mark (h : TypeHead) : h.placeless.arrayMark = h.arrayMark := rfl
  induction t using TypeExpr.induction with
  | bare h => simp [placeless, text, name, mark]
  | params h ps ih =>
    have params : (ps.map placeless).map text = ps.map text := by
      rw [List.map_map]
      exact List.map_congr_left ih
    have all : placeless ⟨h, some ps⟩ = ⟨h.placeless, some (ps.map placeless)⟩ :=
      mapHeads_some _ h ps
    simp [all, text, texts_eq_map, params, name, mark]

theorem placeless_resolve (find : String → Option String) (t : TypeExpr) :
    (t.resolve find).placeless = t.placeless.resolve find := by
  simp only [placeless, resolve_eq_mapHeads, mapHeads_mapHeads]
  congr 1
  funext h
  exact h.placeless_resolve find

@[simp] theorem placeless_arityFault? (t : TypeExpr) :
    t.placeless.arityFault? = t.arityFault? := by
  simp only [arityFault?, placeless_params, placeless_name, placeless_text]
  cases t.params <;> simp

theorem placeless_arityNotes (t : TypeExpr) :
    t.placeless.arityNotes = t.arityNotes.map Diagnostic.placeless := by
  simp [arityNotes, List.filterMap_map, List.map_filterMap, Function.comp_def, TypeHead.placeless]

end TypeExpr

theorem Registry.canBeOut_placeless (g : Registry) (t : TypeExpr) :
    g.canBeOut t.placeless = g.canBeOut t := by
  simp [canBeOut, TypeHead.placeless]

/-! ## Verdicts -/

namespace Verdict

def passes : Verdict → Bool
  | .done passed _ => passed
  | .stopped .. => false

theorem result_eq_ok_iff {v : Verdict} : v.result = .ok true ↔ v.passes = true := by
  cases v <;> simp [result, passes]

def placeless : Verdict → Verdict
  | .done passed notes => .done passed (notes.map Diagnostic.placeless)
  | .stopped notes f => .stopped (notes.map Diagnostic.placeless) f.placeless

@[simp] theorem passes_placeless (v : Verdict) : v.placeless.passes = v.passes := by
  cases v <;> rfl

@[simp] theorem placeless_pass : pass.placeless = pass := rfl

@[simp] theorem placeless_ofNotes (notes : List Diagnostic) :
    (ofNotes notes).placeless = ofNotes (notes.map Diagnostic.placeless) := by
  simp [ofNotes, placeless]

@[simp] theorem placeless_andThen (v w : Verdict) :
    (v.andThen w).placeless = v.placeless.andThen w.placeless := by
  cases v <;> cases w <;> simp [andThen, placeless]

@[simp] theorem placeless_ifPassed (v w : Verdict) :
    (v.ifPassed w).placeless = v.placeless.ifPassed w.placeless := by
  cases v with
  | stopped => rfl
  | done passed notes => cases passed <;> cases w <;> simp [ifPassed, andThen, placeless]

@[simp] theorem placeless_all (vs : List Verdict) :
    (all vs).placeless = all (vs.map placeless) := by
  unfold all
  induction vs with
  | nil => rfl
  | cons v vs ih => simp [ih]

/-- A report at one place that is only made under a condition. -/
@[simp] theorem placeless_if (c : Prop) [Decidable c] (location : Location) (cause : Cause) :
    (ofNotes (if c then [.atPlace location cause] else [])).placeless =
      ofNotes (if c then [.atPlace .nowhere cause] else []) := by
  split <;> rfl

theorem placeless_notes (v : Verdict) : v.placeless.notes = v.notes.map Diagnostic.placeless := by
  cases v with
  | done => rfl
  | stopped told f =>
    simp [placeless, notes, Fatal.diagnostic, Fatal.placeless, Diagnostic.placeless]

end Verdict

open Verdict

/-! ## Checks of types -/

theorem TypeExpr.placeless_check (t : TypeExpr) : t.placeless.check = t.check.placeless := by
  have same := t.placeless_isFullyResolved
  cases resolved : t.isFullyResolved with
  | true =>
    rw [check_of_resolved resolved, check_of_resolved (same.trans resolved), placeless_arityNotes,
      placeless_ofNotes]
  | false =>
    rw [check_of_unresolved resolved, check_of_unresolved (same.trans resolved), unresolvedFault,
      placeless_head, placeless_text]
    rfl

namespace Argument

theorem placeless_text (a : Argument) : a.placeless.text = a.text := by
  simp [text, variableText, placeless]

theorem placeless_fault? (a : Argument) (g : Registry) : a.placeless.fault? g = a.fault? g := by
  have type : a.placeless.type = a.type.placeless := rfl
  simp only [fault?, type, placeless_text, TypeExpr.placeless_text, Registry.canBeOut_placeless]
  rfl

theorem placeless_check (a : Argument) (g : Registry) (index : Nat) :
    a.placeless.check g index = (a.check g index).placeless := by
  have type : a.placeless.type = a.type.placeless := rfl
  unfold check
  rw [placeless_fault?, type, TypeExpr.placeless_check, placeless_ifPassed, placeless_ofNotes]
  cases a.fault? g <;> rfl

end Argument

namespace Method

theorem placeless_checkArguments (m : Method) (g : Registry) (oneway : Bool) :
    m.placeless.checkArguments g oneway = (m.checkArguments g oneway).placeless := by
  have arguments : m.placeless.arguments = m.arguments.map Argument.placeless := rfl
  have output (a : Argument) :
      m.placeless.onewayOutput oneway a.placeless = (m.onewayOutput oneway a).placeless := by
    unfold onewayOutput
    rw [placeless_if]
    rfl
  unfold checkArguments
  simp [arguments, List.zipIdx_map, Function.comp_def, output, Argument.placeless_check]

theorem placeless_checkName (m : Method) (before : List Method) :
    m.placeless.checkName (before.map placeless) = (m.checkName before).placeless := by
  have same : (fun m' : Method => decide (m'.name = m.placeless.name)) ∘ placeless =
      fun m' => decide (m'.name = m.name) := rfl
  unfold checkName
  rw [List.find?_map, same]
  cases before.find? fun m' => decide (m'.name = m.name) <;> rfl

theorem placeless_check (m : Method) (g : Registry) (oneway : Bool) (before : List Method) :
    m.placeless.check g oneway (before.map placeless) =
      (m.check g oneway before).placeless := by
  have type : m.placeless.returnType = m.returnType.placeless := rfl
  have own : m.placeless.oneway = m.oneway := rfl
  have returned (either : Bool) :
      m.placeless.onewayReturn either = (m.onewayReturn either).placeless := by
    unfold onewayReturn
    rw [placeless_if, type, TypeExpr.placeless_name]
    rfl
  unfold check
  simp [type, own, returned, placeless_checkArguments, placeless_checkName,
    TypeExpr.placeless_check]

theorem placeless_checkAll (g : Registry) (oneway : Bool) (before methods : List Method) :
    checkAll g oneway (before.map placeless) (methods.map placeless) =
      (checkAll g oneway before methods).placeless := by
  induction methods generalizing before with
  | nil => rfl
  | cons m ms ih =>
    have others := ih (before ++ [m])
    rw [List.map_append, List.map_singleton] at others
    simp [checkAll, placeless_check, others]

/-! ## Numbers of methods -/

theorem placeless_idProblem? (file : String) (used : List Int) (unnumbered : Bool)
    (methods : List Method) :
    idProblem? file used unnumbered (methods.map placeless) =
      (idProblem? file used unnumbered methods).map Diagnostic.placeless := by
  induction methods generalizing used unnumbered with
  | nil => rfl
  | cons m ms ih =>
    have id : m.placeless.id = m.id := rfl
    rw [List.map_cons, idProblem?, idProblem?, id]
    cases m.id.written? with
    | none =>
      dsimp only
      split
      · exact ih used true
      · rfl
    | some n =>
      dsimp only
      split
      · rfl
      split
      · rfl
      split
      · rfl
      · exact ih (n :: used) unnumbered

theorem placeless_numbered (methods : List Method) :
    (numbered methods).map placeless = numbered (methods.map placeless) := by
  have unwritten : ((fun m : Method => m.id.written?.isNone) ∘ placeless) =
      fun m => m.id.written?.isNone := rfl
  unfold numbered
  rw [List.any_map, unwritten]
  split
  · simp only [List.zipIdx_map, List.map_map]
    rfl
  · rfl

end Method

/-! ## Checks of constants -/

namespace Constant

theorem placeless_check (c : Constant) : c.placeless.check = c.check.placeless := by
  have type : c.placeless.type = c.type.placeless := rfl
  have value : c.placeless.value.value = c.value.value := rfl
  have own : c.placeless.checkValue = c.checkValue.placeless := by
    unfold checkValue
    rw [type, value, TypeExpr.placeless_text]
    dsimp only
    split
    · rfl
    split
    · rfl
    split <;> rfl
  unfold check
  rw [type, TypeExpr.placeless_check, own, placeless_ifPassed]

theorem placeless_checkAll (before constants : List Constant) :
    checkAll (before.map placeless) (constants.map placeless) =
      (checkAll before constants).placeless := by
  induction constants generalizing before with
  | nil => rfl
  | cons c cs ih =>
    have others := ih (before ++ [c])
    rw [List.map_append, List.map_singleton] at others
    have same : ((fun c' : Constant => decide (c'.name = c.placeless.name)) ∘ placeless) =
        fun c' => decide (c'.name = c.name) := rfl
    have name : c.placeless.checkName (before.map placeless) =
        (c.checkName before).placeless := by
      unfold checkName
      rw [List.any_map, same, placeless_if]
      rfl
    simp [checkAll, name, placeless_check, others]

end Constant

/-! ## Declarations -/

namespace Declaration

theorem placeless_ofDeclaration (d : Declaration) :
    TypeRecord.ofDeclaration d.placeless = .ofDeclaration d := by
  obtain ⟨header, body⟩ := d
  cases body <;> rfl

theorem placeless_methods (d : Declaration) :
    d.placeless.methods = d.methods.map Method.placeless := by
  obtain ⟨header, body⟩ := d
  cases body <;> rfl

theorem placeless_withMethods (d : Declaration) (methods : List Method) :
    (d.withMethods methods).placeless = d.placeless.withMethods (methods.map Method.placeless) := by
  obtain ⟨header, body⟩ := d
  cases body <;> rfl

theorem placeless_types (d : Declaration) :
    d.placeless.types = d.types.map TypeExpr.placeless := by
  obtain ⟨header, body⟩ := d
  cases body with
  | parcelable name cppHeader => rfl
  | structured name fields => simp [placeless, types, Body.placeless, Field.placeless]
  | interface oneway methods constants =>
    have own (m : Method) : m.placeless.types = m.types.map TypeExpr.placeless := by
      simp [Method.types, Method.placeless, Argument.placeless]
    simp [placeless, types, Body.placeless, Constant.placeless, own, List.map_flatMap,
      List.flatMap_map]

theorem placeless_resolve (find : String → Option String) (d : Declaration) :
    (d.mapTypes (.resolve find)).placeless = d.placeless.mapTypes (.resolve find) := by
  obtain ⟨header, body⟩ := d
  cases body with
  | parcelable name cppHeader => rfl
  | structured name fields =>
    simp [placeless, mapTypes, Body.placeless, Field.placeless, TypeExpr.placeless_resolve]
  | interface oneway methods constants =>
    simp [placeless, mapTypes, Body.placeless, Method.placeless, Method.mapTypes,
      Argument.placeless, Constant.placeless, TypeExpr.placeless_resolve]

theorem placeless_placement (d : Declaration) (path : String) :
    d.placeless.placementNotes path = (d.placementNotes path).map Diagnostic.placeless := by
  have same : d.placeless.expectedFile = d.expectedFile := rfl
  unfold placementNotes
  rw [same]
  split <;> rfl

theorem placeless_checkTypes (d : Declaration) (g : Registry) :
    d.placeless.checkTypes g = (d.checkTypes g).placeless := by
  obtain ⟨header, body⟩ := d
  cases body with
  | parcelable name cppHeader => rfl
  | structured name fields =>
    simp [placeless, checkTypes, Body.placeless, Function.comp_def, Field.placeless,
      TypeExpr.placeless_check]
  | interface oneway methods constants =>
    have encodings (b b' : Body) :
        encodings ⟨header.placeless, b⟩ = (encodings ⟨header, b'⟩).placeless := by
      unfold Declaration.encodings
      rw [placeless_if]
      rfl
    have all := Method.placeless_checkAll g oneway [] methods
    rw [List.map_nil] at all
    simp only [placeless, Body.placeless, checkTypes, placeless_andThen, all]
    rw [encodings]

theorem placeless_checkConstants (d : Declaration) :
    d.placeless.checkConstants = d.checkConstants.placeless := by
  obtain ⟨header, body⟩ := d
  cases body with
  | parcelable name cppHeader => rfl
  | structured name fields => rfl
  | interface oneway methods constants => exact Constant.placeless_checkAll [] constants

end Declaration

end IdlFrontEnd
