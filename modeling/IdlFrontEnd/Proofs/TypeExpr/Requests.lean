import IdlFrontEnd.Proofs.Lookup
import IdlFrontEnd.Proofs.TypeExpr.Paths

/-!
# Resolving a type again and again

A type may be resolved more than once, each time against what a registry knows by then and for a
file with imports of its own. A type at any depth is reached by a path, the positions to go down
among the parameters. Requests only ever add canonical names: none is lost or replaced, a type that
a request does not know is left to a later one, and the answer to a request says whether anything is
left.
-/
namespace IdlFrontEnd

/-- A registry is asked for the names in a type, for a file with these imports. -/
structure Request where
  registry : Registry
  imports : List String

namespace Request

/-- The canonical names that the request knows. -/
def names (r : Request) : String → Option String := r.registry.canonical? r.imports

/-- The answer to a request and the type that it leaves. -/
def resolve (r : Request) (t : TypeExpr) : Bool × TypeExpr := (t.isKnown r.names, t.resolve r.names)

end Request

/-! ## One head -/

namespace TypeHead

theorem resolve_of_found {find : String → Option String} {h : TypeHead} {name : String}
    (found : h.canonical = some name) : h.resolve find = h := by
  unfold resolve
  rw [found]

theorem resolve_of_unknown {find : String → Option String} {h : TypeHead}
    (unknown : find h.written = none) : h.resolve find = h := by
  obtain ⟨location, written, canonical, isArray, comments, annotations, attachment⟩ := h
  cases canonical <;> simp_all [resolve]

/-- What a head is apart from its canonical name. -/
def asWritten (h : TypeHead) : TypeHead := { h with canonical := none }

theorem asWritten_resolve (find : String → Option String) (h : TypeHead) :
    (h.resolve find).asWritten = h.asWritten := by
  unfold resolve
  split <;> rfl

end TypeHead

namespace TypeExpr

/-! ## One request -/

/-- Everything in the type but the canonical names. -/
def asWritten (t : TypeExpr) : TypeExpr := t.mapHeads TypeHead.asWritten

/-- The second type is the first one, perhaps with more canonical names in it. -/
structure GrowsTo (t u : TypeExpr) : Prop where
  /-- A name that stands at the end of a path stays there. -/
  kept : ∀ path p name, t.at? path = some p → p.head.canonical = some name →
    ∃ q, u.at? path = some q ∧ q.head.canonical = some name
  same : u.asWritten = t.asWritten

theorem GrowsTo.refl (t : TypeExpr) : t.GrowsTo t :=
  ⟨fun _ p _ leads found => ⟨p, leads, found⟩, rfl⟩

theorem GrowsTo.trans {t u v : TypeExpr} (first : t.GrowsTo u) (second : u.GrowsTo v) :
    t.GrowsTo v := by
  refine ⟨fun path p name leads found => ?_, second.same.trans first.same⟩
  obtain ⟨q, there, still⟩ := first.kept path p name leads found
  exact second.kept path q name there still

theorem resolve_grows (find : String → Option String) (t : TypeExpr) :
    t.GrowsTo (t.resolve find) := by
  constructor
  · intro path p name leads found
    refine ⟨p.resolve find, by rw [at?_resolve, leads, Option.map_some], ?_⟩
    rw [head_resolve, TypeHead.resolve_of_found found]
    exact found
  · have heads : TypeHead.asWritten ∘ TypeHead.resolve find = TypeHead.asWritten :=
      funext (TypeHead.asWritten_resolve find)
    rw [asWritten, resolve_eq_mapHeads, mapHeads_mapHeads, heads]
    rfl

/-! ## Requests in turn -/

/-- The type that these requests leave, made in turn. -/
def after (t : TypeExpr) (requests : List Request) : TypeExpr :=
  requests.foldl (fun u r => (r.resolve u).2) t

theorem after_append (t : TypeExpr) (requests more : List Request) :
    t.after (requests ++ more) = (t.after requests).after more := List.foldl_append

theorem after_grows (t : TypeExpr) (requests : List Request) : t.GrowsTo (t.after requests) := by
  induction requests generalizing t with
  | nil => exact .refl t
  | cons r requests ih => exact (resolve_grows r.names t).trans (ih (t.resolve r.names))

/-- However often a type was resolved before, further requests only add canonical names to it. One
request names every nested type that it knows and that has no name yet, and leaves alone what it
does not know. Its answer is yes exactly if the whole type is resolved then, that is if a name
stands at the end of every path, and if nothing is listed as unresolved. -/
theorem resolution_monotone (t : TypeExpr) (requests : List Request) (r : Request)
    (named : r.registry.Named) :
    let before := t.after requests
    let next := (r.resolve before).2
    (∀ later, before.GrowsTo (t.after (requests ++ later))) ∧
      (∀ path p, before.at? path = some p → ∃ q, next.at? path = some q ∧
        (r.names p.head.written = none → q.head = p.head) ∧
        ∀ name, p.head.canonical = none → r.names p.head.written = some name →
          q.head.canonical = some name) ∧
      ((r.resolve before).1 = true ↔ next.isFullyResolved = true) ∧
      (next.isFullyResolved = true ↔
        ∀ path p, next.at? path = some p → ∃ name, p.head.canonical = some name) ∧
      (next.isFullyResolved = true ↔ next.unresolvedParts = []) := by
  intro before next
  have proper : Proper r.names := named.canonical?_proper r.imports
  refine ⟨fun later => ?_, fun path p leads => ?_, ?_, isFullyResolved_iff_paths next,
    (unresolvedParts_eq_nil_iff next).symm⟩
  · rw [after_append]
    exact after_grows before later
  · have there : next.at? path = some (p.resolve r.names) := by
      change (before.resolve r.names).at? path = _
      rw [at?_resolve, leads, Option.map_some]
    refine ⟨p.resolve r.names, there, fun unknown => ?_, fun name unfound known => ?_⟩
    · rw [head_resolve, TypeHead.resolve_of_unknown unknown]
    · rw [head_resolve, resolve_head proper, unfound, Option.none_or, known]
  · have same : (r.resolve before).1 = next.isFullyResolved :=
      isKnown_eq_isFullyResolved proper before
    rw [same]

/-- `Map<Foo,List<Bar>>[]`, with no name found yet. -/
def mapOfLists : TypeExpr :=
  let head (name : String) (isArray : Bool) := TypeHead.fresh .nowhere name isArray "" .empty
  ⟨head "Map" true,
    some [⟨head "Foo" false, none⟩, ⟨head "List" false, some [⟨head "Bar" false, none⟩]⟩]⟩

/-- A registry that knows `Foo` as `a.Foo`. -/
def knowingFoo : Request :=
  ⟨(Registry.empty.addAll [⟨.defined, ⟨.parcelable, "Foo", ["a"]⟩⟩]).1, []⟩

/-- A registry that knows `Bar` through an import only, and no `Foo`. -/
def knowingBar : Request :=
  ⟨(Registry.empty.addAll [⟨.preprocessed, ⟨.parcelable, "Outer.Bar", ["b"]⟩⟩]).1, ["b.Outer.Bar"]⟩

theorem mapOfLists_resolution :
    knowingBar.registry.Named ∧ (mapOfLists.after [knowingFoo]).unresolvedParts ≠ [] ∧
      (knowingBar.resolve (mapOfLists.after [knowingFoo])).1 = true ∧
      (knowingBar.resolve (mapOfLists.after [knowingFoo])).2.unresolvedParts = [] ∧
      ∃ foo, (mapOfLists.after [knowingFoo, knowingBar]).at? [0] = some foo ∧
        foo.head.canonical = some "a.Foo" := by
  have named : knowingBar.registry.Named := by
    unfold Registry.Named
    decide +kernel
  obtain ⟨grows, -, answer, -, listed⟩ :=
    resolution_monotone mapOfLists [knowingFoo] knowingBar named
  have yes : (knowingBar.resolve (mapOfLists.after [knowingFoo])).1 = true := by decide +kernel
  have foo : (((mapOfLists.after [knowingFoo]).at? [0]).map (·.head.canonical)) =
      some (some "a.Foo") := by decide +kernel
  obtain ⟨p, there, found⟩ := Option.map_eq_some_iff.1 foo
  refine ⟨named, ?_, yes, listed.1 (answer.1 yes), (grows [knowingBar]).kept _ p _ there found⟩
  have some : (mapOfLists.after [knowingFoo]).unresolvedParts.isEmpty = false := by decide +kernel
  exact fun none => by simp [none] at some

end TypeExpr

end IdlFrontEnd
