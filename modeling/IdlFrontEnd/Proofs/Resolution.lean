import IdlFrontEnd.Proofs.Lookup
import IdlFrontEnd.Proofs.Text.Parts

/-!
# What a name stands for beside the imports of its file

A name that was resolved stays as it is when it is resolved again without imports: the names that
do are those of built-in types and the canonical names of records. Imports come first for a name
that they end in, the first known one of them. Only the terms after the last dot are compared. So an
imported class counts as soon as it ends in the name, even if it leads to a type with another simple
name, or to any type of this name because it has no package. For a type that is nested in another
one no import counts at all.
-/
namespace IdlFrontEnd

/-- In a package or without one, a name without dots is the last term. -/
theorem lastTerm_canonicalName (package : List String) {name : String}
    (dotless : '.' ∉ name.toList) : Text.lastTerm (canonicalName package name) = name := by
  unfold canonicalName
  split
  · exact Text.lastTerm_of_dotless dotless
  · exact Text.lastTerm_append dotless

namespace Registry

open TypeRecord

variable {g : Registry} {imports : List String} {name className : String}

/-! ## Names that stand for themselves -/

/-- A canonical name leads to a record that has it. -/
theorem lookup?_canonical {r : TypeRecord} (member : r ∈ g.records) :
    ∃ s, g.lookup? r.canonical = some s ∧ s.canonical = r.canonical := by
  unfold lookup?
  cases defined : g.defined.find? r.canonical with
  | some s => exact ⟨s, rfl, (Table.find?_eq_some_iff.1 defined).2⟩
  | none =>
    have listed : r ∈ g.preprocessed.records := by
      refine (List.mem_append.1 member).resolve_left fun inside => ?_
      have found := Table.find?_eq_some_iff.2 ⟨inside, rfl⟩
      rw [defined] at found
      cases found
    rw [Table.find?_eq_some_iff.2 ⟨listed, rfl⟩]
    exact ⟨r, rfl, rfl⟩

theorem canonical?_nil (g : Registry) (name : String) :
    g.canonical? [] name =
      if isBuiltin name then some name else (g.lookup? name).map TypeRecord.canonical := by
  simp [canonical?]

theorem canonical?_self_iff : g.canonical? [] name = some name ↔ g.Knows name := by
  constructor
  · exact knows_of_canonical?
  · intro known
    rw [canonical?_nil]
    split
    · rfl
    next ordinary =>
      have builtin : name ∉ builtins := by simpa [isBuiltin] using ordinary
      obtain ⟨r, member, rfl⟩ := known.resolve_left builtin
      obtain ⟨s, found, same⟩ := lookup?_canonical member
      rw [found, Option.map_some, same]

/-- What a name is resolved to beside any imports is resolved to itself, and so is the canonical
name of every record. -/
theorem resolution_settles (g : Registry) :
    (∀ imports name className, g.canonical? imports name = some className →
        g.canonical? [] className = some className) ∧
      ∀ r ∈ g.records, g.canonical? [] r.canonical = some r.canonical := by
  constructor
  · intro imports name className resolved
    exact canonical?_self_iff.2 (knows_of_canonical? resolved)
  · intro r member
    exact canonical?_self_iff.2 (.inr ⟨r, member, rfl⟩)

/-- A type of a built-in name beside one that is nested in a listed type. -/
def builtinAndNested : Registry :=
  (empty.addAll
    [⟨.defined, ⟨.parcelable, "List", []⟩⟩, ⟨.preprocessed, ⟨.interface, "Outer.List", ["a"]⟩⟩]).1

theorem builtinAndNested_settles :
    builtinAndNested.canonical? ["b.Outer", "a.Outer.List"] "Outer.List" = some "a.Outer.List" ∧
      builtinAndNested.canonical? [] "a.Outer.List" = some "a.Outer.List" ∧
      (⟨.parcelable, "List", []⟩ : TypeRecord) ∈ builtinAndNested.records ∧
      builtinAndNested.canonical? [] "List" = some "List" := by
  obtain ⟨again, own⟩ := resolution_settles builtinAndNested
  have resolved : builtinAndNested.canonical? ["b.Outer", "a.Outer.List"] "Outer.List" =
      some "a.Outer.List" := by decide +kernel
  have member : (⟨.parcelable, "List", []⟩ : TypeRecord) ∈ builtinAndNested.records := by
    decide +kernel
  exact ⟨resolved, again _ _ _ resolved, member, own _ member⟩

/-! ## Imports that end in the name -/

/-- The class is the canonical name of a type with this simple name. -/
def IsNamed (g : Registry) (name className : String) : Prop :=
  ∃ r ∈ g.records, r.canonical = className ∧ r.name = name

instance (g : Registry) (name className : String) : Decidable (g.IsNamed name className) :=
  inferInstanceAs (Decidable (∃ r ∈ g.records, _))

theorem IsNamed.lastTerm (named : g.IsNamed name className) (dotless : '.' ∉ name.toList) :
    Text.lastTerm className = name := by
  obtain ⟨r, -, rfl, rfl⟩ := named
  exact lastTerm_canonicalName r.package dotless

/-- A name with dots is no last term, so no import is asked. -/
theorem canonical?_of_dotted (imports : List String) (dotted : '.' ∈ name.toList) :
    g.canonical? imports name = g.canonical? [] name := by
  have none : imports.filter (Text.lastTerm · = name) = [] := by
    refine List.filter_eq_nil_iff.2 fun i _ ends => ?_
    have own : name ∈ Text.dotted i := by
      simpa [of_decide_eq_true ends] using Text.lastTerm_mem i
    exact Text.dot_not_mem_of_mem_dotted own dotted
  unfold canonical?
  rw [none, List.filter_nil]

/-- Imports before a class are others than the class. -/
theorem of_mem_before {i : String} (early : i ∈ imports.takeWhile (· ≠ className)) :
    i ∈ imports ∧ i ≠ className :=
  ⟨List.takeWhile_subset _ early, by simpa using List.all_eq_true.1 List.all_takeWhile i early⟩

/-- The search among the imports ends with the class, unless one before it leads elsewhere. -/
theorem findSome?_imported (imported : className ∈ imports) (own : g.IsNamed name className)
    (ends : Text.lastTerm className = name)
    (before : ∀ i ∈ imports.takeWhile (· ≠ className), Text.lastTerm i = name →
      ∀ r, g.lookup? i = some r → r.canonical = className) :
    ∃ r, (imports.filter (Text.lastTerm · = name)).findSome? g.lookup? = some r ∧
      r.canonical = className := by
  induction imports with
  | nil => cases imported
  | cons i imports ih =>
    by_cases here : i = className
    · subst here
      obtain ⟨r, member, same, -⟩ := own
      obtain ⟨s, found, other⟩ := lookup?_canonical member
      rw [same] at found other
      exact ⟨s, by simp [ends, found], other⟩
    · have inside := (List.mem_cons.1 imported).resolve_left (Ne.symm here)
      rw [List.takeWhile_cons_of_pos (by simpa using here)] at before
      obtain ⟨first, others⟩ := List.forall_mem_cons.1 before
      have later := ih inside others
      by_cases meant : Text.lastTerm i = name
      · cases found : g.lookup? i with
        | some r => exact ⟨r, by simp [meant, found], first meant r found⟩
        | none => simpa [meant, found] using later
      · simpa [meant] using later

theorem canonical?_of_imported (ordinary : name ∉ builtins) {r : TypeRecord}
    (found : (imports.filter (Text.lastTerm · = name)).findSome? g.lookup? = some r) :
    g.canonical? imports name = some r.canonical := by
  unfold canonical?
  rw [if_neg (by simpa [isBuiltin] using ordinary), found]
  rfl

/-- An import that ends in a name without dots leads to a type of this simple name, as long as no
simple name has dots and the name is not imported without its package. -/
theorem isNamed_of_known {i : String} (flat : ∀ r ∈ g.records, '.' ∉ r.name.toList)
    (ends : Text.lastTerm i = name) (other : i ≠ name) (known : (g.lookup? i).isSome = true) :
    g.IsNamed name i := by
  obtain ⟨r, member, rfl | rfl⟩ := lookup?_isSome_iff.1 known
  · exact ⟨r, member, rfl, (lastTerm_canonicalName r.package (flat r member)).symm.trans ends⟩
  · exact absurd ((Text.lastTerm_of_dotless (flat r member)).symm.trans ends) other

/-- If one class alone among the imports is the canonical name of a type with this simple name, the
name stands for that class, provided that the name has no dots and that every import before the class
that ends in the name leads to the class too, unless it is not known at all. This is so wherever no
simple name has dots and the name is not imported by itself. To a name with dots the imports make no
difference. -/
theorem imported_type_is_meant (g : Registry) (imports : List String) (name className : String)
    (ordinary : name ∉ builtins) (imported : className ∈ imports)
    (own : g.IsNamed name className)
    (only : ∀ i ∈ imports, g.IsNamed name i → i = className) :
    ('.' ∉ name.toList →
        (∀ i ∈ imports.takeWhile (· ≠ className), ¬ g.IsNamed name i → Text.lastTerm i = name →
          ∀ r, g.lookup? i = some r → r.canonical = className) →
        g.canonical? imports name = some className) ∧
      ((∀ r ∈ g.records, '.' ∉ r.name.toList) → (name ∈ imports → name = className) →
        g.canonical? imports name = some className) ∧
      ('.' ∈ name.toList → g.canonical? imports name = g.canonical? [] name) := by
  have meant (dotless : '.' ∉ name.toList)
      (before : ∀ i ∈ imports.takeWhile (· ≠ className), ¬ g.IsNamed name i →
        Text.lastTerm i = name → ∀ r, g.lookup? i = some r → r.canonical = className) :
      g.canonical? imports name = some className := by
    obtain ⟨r, found, rfl⟩ := findSome?_imported imported own (own.lastTerm dotless) <| by
      intro i early ends r found
      obtain ⟨member, other⟩ := of_mem_before early
      exact before i early (fun named => other (only i member named)) ends r found
    exact canonical?_of_imported ordinary found
  refine ⟨meant, fun flat bare => ?_, canonical?_of_dotted imports⟩
  have dotless : '.' ∉ name.toList := by
    obtain ⟨r, member, -, rfl⟩ := own
    exact flat r member
  refine meant dotless fun i early unnamed ends r found => ?_
  obtain ⟨member, other⟩ := of_mem_before early
  have packaged : i ≠ name := by
    rintro rfl
    exact other (bare member)
  exact absurd (isNamed_of_known flat ends packaged (by simp [found])) unnamed

/-- Three types of one simple name, one of them listed only. -/
def threeFoos : Registry :=
  (empty.addAll
    [⟨.defined, ⟨.parcelable, "Foo", ["b"]⟩⟩, ⟨.defined, ⟨.parcelable, "Foo", ["c"]⟩⟩,
     ⟨.preprocessed, ⟨.interface, "Foo", ["a"]⟩⟩]).1

theorem threeFoos_imported :
    threeFoos.canonical? [] "Foo" = some "b.Foo" ∧
      threeFoos.canonical? ["x.Foo", "a.Foo", "Foo"] "Foo" = some "a.Foo" ∧
      threeFoos.canonical? ["c.Foo", "b.Data"] "Foo" = some "c.Foo" := by
  have listed : threeFoos.canonical? ["x.Foo", "a.Foo", "Foo"] "Foo" = some "a.Foo" := by
    refine (imported_type_is_meant threeFoos ["x.Foo", "a.Foo", "Foo"] "Foo" "a.Foo" (by decide)
      (by decide) (by decide +kernel) (by decide +kernel)).1 (by decide) ?_
    intro i early _ _ r found
    have unknown : i = "x.Foo" := by simpa using early
    have none : threeFoos.lookup? "x.Foo" = none := by decide +kernel
    rw [unknown, none] at found
    cases found
  have parsed : threeFoos.canonical? ["c.Foo", "b.Data"] "Foo" = some "c.Foo" :=
    (imported_type_is_meant threeFoos ["c.Foo", "b.Data"] "Foo" "c.Foo" (by decide) (by decide)
      (by decide +kernel) (by decide +kernel)).2.1 (by decide +kernel) (by decide)
  exact ⟨by decide +kernel, listed, parsed⟩

/-- Two types that are each nested in a type of the same name. -/
def nestedTwice : Registry :=
  (empty.addAll
    [⟨.defined, ⟨.parcelable, "Outer.Inner", ["b"]⟩⟩,
     ⟨.defined, ⟨.parcelable, "Outer.Inner", ["c"]⟩⟩]).1

/-- The second one is imported, and the first one is found. -/
theorem nestedTwice_imported :
    (∀ i ∈ ["c.Outer.Inner"], nestedTwice.IsNamed "Outer.Inner" i) ∧
      nestedTwice.canonical? ["c.Outer.Inner"] "Outer.Inner" = some "b.Outer.Inner" := by
  decide +kernel

theorem imported_type_overlooked :
    ¬ ∀ (g : Registry) (imports : List String) (name className : String),
      name ∉ builtins → className ∈ imports → g.IsNamed name className →
        (∀ i ∈ imports, g.IsNamed name i → i = className) →
          g.canonical? imports name = some className := by
  intro all
  obtain ⟨named, first⟩ := nestedTwice_imported
  have second := all nestedTwice ["c.Outer.Inner"] "Outer.Inner" "c.Outer.Inner" (by decide)
    (by decide) (named _ (by decide)) (by simp)
  rw [first] at second
  exact absurd second (by decide)

end Registry

end IdlFrontEnd
