import IdlFrontEnd.Proofs.Declaration
import IdlFrontEnd.Proofs.Grammar.Member

/-!
# What a declaration says

Two declarations may differ in where they stand and in their comments and still say the same. The
essence of a declaration is what is left without these, without its package and header file, and
without the annotations of arguments and of type parameters.
-/
namespace IdlFrontEnd

/-- A head with nothing but the name and the array mark. -/
def TypeHead.plain (h : TypeHead) : TypeHead :=
  { h with location := .nowhere, comments := "", annotations := .empty }

/-- The names in a type, with their parameters and array marks. -/
def TypeExpr.tree (t : TypeExpr) : TypeExpr := t.mapHeads TypeHead.plain

/-- The names in a type, and the annotations in front of it. -/
def TypeExpr.essence (t : TypeExpr) : TypeExpr := t.tree.annotate t.head.annotations

def Literal.essence (v : Literal) : Literal := { v with location := .nowhere }

def Field.essence (f : Field) : Field :=
  ⟨.nowhere, f.type.essence, f.name, f.default.map Literal.essence⟩

def Argument.essence (a : Argument) : Argument := ⟨.nowhere, a.written, a.type.tree, a.name⟩

def Method.essence (m : Method) : Method :=
  ⟨.nowhere, m.oneway, "", m.returnType.essence, m.name, m.arguments.map Argument.essence, m.id⟩

def Constant.essence (c : Constant) : Constant :=
  ⟨.nowhere, c.type.essence, c.name, c.value.essence⟩

def Member.essence : Member → Member
  | .method m => .method m.essence
  | .constant c => .constant c.essence

def QualifiedName.essence (n : QualifiedName) : QualifiedName := ⟨.nowhere, n.terms, ""⟩

def Body.essence : Body → Body
  | .parcelable name _ => .parcelable name.essence ""
  | .structured name fields => .structured name.essence (fields.map Field.essence)
  | .interface oneway methods constants =>
    .interface oneway (methods.map Method.essence) (constants.map Constant.essence)

def Header.essence (h : Header) : Header :=
  { h with location := .nowhere, comments := "", package := [] }

def Declaration.essence (d : Declaration) : Declaration := ⟨d.header.essence, d.body.essence⟩

namespace TypeExpr

theorem tree_eq (h : TypeHead) (ps : Option (List TypeExpr)) :
    tree ⟨h, ps⟩ = ⟨h.plain, ps.map (List.map tree)⟩ := mapHeads_eq _ h ps

theorem tree_annotate (t : TypeExpr) (set : AnnotationSet) : (t.annotate set).tree = t.tree := by
  obtain ⟨h, ps⟩ := t
  simp [annotate, tree_eq, TypeHead.plain]

theorem tree_unplaced (t : TypeExpr) : t.unplaced.tree = t.tree := by
  obtain ⟨h, ps⟩ := t
  simp [unplaced, tree_eq, TypeHead.plain]

theorem essence_annotate (t : TypeExpr) (set : AnnotationSet) :
    (t.annotate set).essence = t.tree.annotate set := by
  rw [essence, tree_annotate]
  rfl

theorem essence_unplaced (t : TypeExpr) : t.unplaced.essence = t.essence := by
  rw [essence, tree_unplaced]
  rfl

theorem tree_tree (t : TypeExpr) : t.tree.tree = t.tree := by
  induction t using TypeExpr.induction with
  | bare h => simp [tree, TypeHead.plain]
  | params h ps ih => simpa [tree, TypeHead.plain] using ih

theorem tree_essence (t : TypeExpr) : t.essence.tree = t.tree := by
  rw [essence, tree_annotate, tree_tree]

end TypeExpr

/-- Where a declaration stands does not matter to what it says. -/
theorem Declaration.essence_unplaced (d : Declaration) :
    (d.mapTypes .unplaced).essence = d.essence := by
  obtain ⟨header, body⟩ := d
  have ofArgument (a : Argument) :
      Argument.essence { a with type := a.type.unplaced } = a.essence := by
    simp [Argument.essence, TypeExpr.tree_unplaced]
  have ofMethod (m : Method) : (m.mapTypes .unplaced).essence = m.essence := by
    simp [Method.mapTypes, Method.essence, TypeExpr.essence_unplaced, ofArgument,
      Function.comp_def]
  cases body with
  | parcelable name cppHeader => rfl
  | structured name fields =>
    simp [mapTypes, essence, Body.essence, Field.essence, TypeExpr.essence_unplaced,
      Function.comp_def]
  | interface oneway methods constants =>
    simp [mapTypes, essence, Body.essence, ofMethod, Constant.essence, TypeExpr.essence_unplaced,
      Function.comp_def]

end IdlFrontEnd
