import IdlFrontEnd.ApiText

/-!
# What is written of a package

Writing a declaration never touches the text before it and ends at the level it began at. Packages
are therefore written one after the other, each as if it stood alone.
-/
namespace IdlFrontEnd

namespace Layout

/-- The layout with more text in front. -/
def behind (before : String) (l : Layout) : Layout := { l with text := before ++ l.text }

/-- What adds text whatever stands before it, and returns to the level it began at. -/
structure Adds (f : Layout → Layout) : Prop where
  behind : ∀ before l, f (l.behind before) = (f l).behind before
  depth : ∀ l, (f l).depth = l.depth

namespace Adds

variable {f g : Layout → Layout}

theorem put (c : Char) : Adds (·.put c) := by
  constructor
  · intro before l
    unfold Layout.put Layout.behind margin
    simp only [String.push_eq_append]
    split <;> simp only [String.append_assoc]
  · exact fun _ => rfl

theorem foldl {α : Type} {f : Layout → α → Layout} (each : ∀ a, Adds (f · a)) (items : List α) :
    Adds (items.foldl f ·) := by
  induction items with
  | nil => exact ⟨fun _ _ => rfl, fun _ => rfl⟩
  | cons a items ih =>
    constructor
    · intro before l
      rw [List.foldl_cons, (each a).behind, ih.behind, List.foldl_cons]
    · intro l
      rw [List.foldl_cons, ih.depth, (each a).depth]

theorem writeLine (s : String) : Adds (·.writeLine s) := foldl put (s ++ "\n").toList

theorem comp (first : Adds f) (next : Adds g) : Adds fun l => g (f l) :=
  ⟨fun before l => by rw [first.behind, next.behind], fun l => by rw [next.depth, first.depth]⟩

theorem deeper (inside : Adds f) : Adds fun l => (f l.indent).dedent := by
  constructor
  · intro before l
    exact congrArg dedent (inside.behind before l.indent)
  · intro l
    simp only [dedent, inside.depth, indent, Nat.add_sub_cancel]

end Adds

theorem writeLine_atLineStart (l : Layout) (s : String) :
    (l.writeLine s).atLineStart = true := by
  unfold writeLine write
  rw [String.toList_append, List.foldl_append]
  rfl

/-- Outside every block nothing is put in front of a line. -/
theorem write_outermost {l : Layout} (outermost : l.depth = 0) (s : String) :
    (l.write s).text = l.text ++ s := by
  have each (cs : List Char) (l : Layout) (outermost : l.depth = 0) :
      (cs.foldl put l).text = l.text ++ String.ofList cs := by
    induction cs generalizing l with
    | nil => simp
    | cons c cs ih =>
      have first : (l.put c).text = l.text.push c := by
        unfold put
        split <;> simp [margin, outermost]
      rw [List.foldl_cons, ih (l.put c) outermost, first]
      simp [← String.toList_inj]
  rw [write, each _ l outermost, String.ofList_toList]

theorem writeLine_outermost {l : Layout} (outermost : l.depth = 0) (s : String) :
    l.writeLine s = ⟨l.text ++ s ++ "\n", 0, true⟩ := by
  have text : (l.writeLine s).text = l.text ++ s ++ "\n" := by
    rw [writeLine, write_outermost outermost, String.append_assoc]
  have depth := ((Adds.writeLine s).depth l).trans outermost
  have start := writeLine_atLineStart l s
  generalize l.writeLine s = written at text depth start
  obtain ⟨_, _, _⟩ := written
  simp_all only

end Layout

namespace Declaration

open Layout

theorem adds_writeBlock (opening : String) (lines : List String) :
    Adds (writeBlock · opening lines) :=
  ((Adds.writeLine _).comp (Adds.foldl .writeLine lines).deeper).comp (.writeLine "\x7d")

theorem adds_writeApi (d : Declaration) : Adds d.writeApi := by
  unfold writeApi
  obtain ⟨opening, lines⟩ := d.apiParts
  cases lines with
  | none => exact .writeLine _
  | some lines => exact adds_writeBlock _ lines

/-- The text of a declaration in its package, one level deeper. -/
def apiText (d : Declaration) : String := (d.writeApi Layout.empty.indent).text

theorem writeApi_inside (d : Declaration) (text : String) :
    (d.writeApi ⟨text, 1, true⟩).writeLine "" = ⟨text ++ (d.apiText ++ "\n"), 1, true⟩ := by
  have front : (⟨text, 1, true⟩ : Layout) = Layout.empty.indent.behind text := by
    simp [behind, Layout.empty, indent]
  have depth := d.adds_writeApi.depth Layout.empty.indent
  rw [front, d.adds_writeApi.behind, (Adds.writeLine "").behind]
  unfold apiText
  generalize d.writeApi Layout.empty.indent = written at depth ⊢
  obtain ⟨own, level, atLineStart⟩ := written
  obtain rfl : level = 1 := depth
  -- A blank line is its line feed, with no spaces before it.
  have blank : (⟨own, 1, atLineStart⟩ : Layout).writeLine "" = ⟨own.push '\n', 1, true⟩ := by
    cases atLineStart <;> rfl
  rw [blank, String.push_eq_append]
  rfl

end Declaration

/-- The block of a package: its declarations, each with a blank line after it. -/
def packageText (package : String) (types : List Declaration) : String :=
  "package " ++ package ++ " \x7b\n" ++ String.join (types.map fun d => d.apiText ++ "\n") ++
    "\x7d\n"

open Layout in
theorem writePackage_eq {l : Layout} (outermost : l.depth = 0) (package : String)
    (types : List Declaration) :
    writePackage l package types = ⟨l.text ++ packageText package types, 0, true⟩ := by
  have each (types : List Declaration) (text : String) :
      types.foldl (fun l d => (d.writeApi l).writeLine "") ⟨text, 1, true⟩ =
        ⟨text ++ String.join (types.map fun d => d.apiText ++ "\n"), 1, true⟩ := by
    induction types generalizing text with
    | nil => simp
    | cons d types ih =>
      rw [List.foldl_cons, Declaration.writeApi_inside, ih, List.map_cons, String.join_cons,
        String.append_assoc]
  unfold writePackage
  rw [writeLine_outermost outermost]
  unfold indent
  dsimp only
  rw [each, dedent]
  dsimp only
  rw [writeLine_outermost rfl]
  simp [packageText, String.append_assoc]

end IdlFrontEnd
