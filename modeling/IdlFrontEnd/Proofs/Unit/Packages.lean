import IdlFrontEnd.Proofs.ApiText
import IdlFrontEnd.Proofs.Placeless
import IdlFrontEnd.Unit.Listing
import Mathlib.Data.List.Nodup
import Mathlib.Data.List.SplitBy

/-!
# Types in packages

A listing sorts all types at once, by package and then by name, and cuts the result where the
package changes. This puts every package in one block, and a block has all types of its package, by
name, those of one name in the order they were given in. If no two types share package and name, the
order in which the types are given makes no difference.
-/
namespace IdlFrontEnd

namespace Declaration

theorem placeless_apiParts (d : Declaration) : d.placeless.apiParts = d.apiParts := by
  have signature (t : TypeExpr) : t.placeless.signature = t.signature := by
    unfold TypeExpr.signature
    rw [TypeExpr.placeless_head, TypeExpr.placeless_text]
    rfl
  have field (f : Field) : fieldLine f.placeless = fieldLine f := by
    obtain ⟨location, type, name, default⟩ := f
    cases default <;>
      simp [fieldLine, Field.placeless, Field.signature, Literal.placeless, signature]
  have method (m : Method) : m.placeless.text = m.text := by
    simp only [Method.text, Method.placeless, signature, List.map_map, Function.comp_def,
      Argument.placeless_text]
    rfl
  have constant (c : Constant) : c.placeless.text = c.text := by
    simp [Constant.text, Constant.placeless, Literal.placeless, signature]
  obtain ⟨header, body⟩ := d
  cases body <;>
    simp [apiParts, placeless, Body.placeless, name, Header.placeless, Function.comp_def, field,
      method, constant]

@[simp] theorem placeless_apiText (d : Declaration) : d.placeless.apiText = d.apiText := by
  unfold apiText writeApi
  rw [placeless_apiParts]
  rfl

end Declaration

namespace ApiListing

/-! ## The order of a listing -/

theorem precedes_iff {d e : Declaration} :
    precedes d e = true ↔ d.package < e.package ∨ d.package = e.package ∧ d.name ≤ e.name := by
  simp [precedes]

theorem precedes_trans (d e f : Declaration) (first : precedes d e = true)
    (next : precedes e f = true) : precedes d f = true := by
  rw [precedes_iff] at *
  grind

theorem precedes_total (d e : Declaration) : (precedes d e || precedes e d) = true := by
  rw [Bool.or_eq_true, precedes_iff, precedes_iff]
  grind

theorem pairwise_sorted (types : List Declaration) :
    (types.mergeSort precedes).Pairwise (precedes · ·) :=
  List.pairwise_mergeSort precedes_trans precedes_total types

/-- Types that may stand in either order stand in the order they were given in. -/
theorem filter_sorted {types : List Declaration} {test : Declaration → Bool}
    (free : ∀ d e, test d = true → test e = true → precedes d e = true) :
    (types.mergeSort precedes).filter test = types.filter test := by
  -- these types are in order already, so sorting keeps them as a part
  have tied : (types.filter test).Pairwise (precedes · ·) := by
    refine List.pairwise_of_forall_mem_list fun d first e next => ?_
    exact free d e (List.mem_filter.1 first).2 (List.mem_filter.1 next).2
  have part := (List.sublist_mergeSort precedes_trans precedes_total tied
    List.filter_sublist).filter test
  simp only [List.filter_filter, Bool.and_self] at part
  exact (part.eq_of_length ((List.mergeSort_perm types precedes).filter test).length_eq.symm).symm

/-! ## One block for each package -/

/-- The types of one package as they are listed: by name, those of one name as they were given. -/
structure Ordered (given listed : List Declaration) : Prop where
  ascending : listed.Pairwise fun d e => d.name ≤ e.name
  stable : ∀ name, listed.filter (·.name = name) = given.filter (·.name = name)

/-- Every package of the types once, in ascending order, each with its types as they are listed. -/
structure Grouped (types : List Declaration) (groups : List (String × List Declaration)) :
    Prop where
  packages : (groups.map Prod.fst).Pairwise (· < ·)
  present : ∀ package, package ∈ groups.map Prod.fst ↔ ∃ d ∈ types, d.package = package
  members : ∀ g ∈ groups, Ordered (types.filter (·.package = g.1)) g.2

/-- The blocks of a listing, each with the package it is written under. -/
def groups (types : List Declaration) : List (String × List Declaration) :=
  (packages types).map fun ds => ((ds.map (·.package)).headD "", ds)

theorem flatten_groups (types : List Declaration) :
    ((groups types).map Prod.snd).flatten = types.mergeSort precedes := by
  have seconds : (groups types).map Prod.snd = packages types := by
    simp [groups, Function.comp_def]
  rw [seconds]
  exact List.flatten_splitBy _ _

theorem group_ne_nil {types : List Declaration} {g : String × List Declaration}
    (member : g ∈ groups types) : g.2 ≠ [] := by
  obtain ⟨ds, inside, rfl⟩ := List.mem_map.1 member
  exact List.ne_nil_of_mem_splitBy inside

theorem package_of_mem {types : List Declaration} {g : String × List Declaration}
    (member : g ∈ groups types) : ∀ d ∈ g.2, d.package = g.1 := by
  obtain ⟨ds, inside, rfl⟩ := List.mem_map.1 member
  have chain := List.isChain_of_mem_splitBy inside
  cases ds with
  | nil => simp
  | cons first rest =>
    have same : (first :: rest).IsChain fun d e => d.package = e.package :=
      chain.imp fun d e same => of_decide_eq_true same
    intro d own
    rcases List.mem_cons.1 own with rfl | own
    · rfl
    · exact ((List.pairwise_cons.1 same.pairwise).1 d own).symm

theorem packages_ascending (types : List Declaration) :
    ((groups types).map Prod.fst).Pairwise (· < ·) := by
  -- from one block to the next the package changes, and sorting lets it only rise
  have changes : (groups types).IsChain fun g h => g.1 ≠ h.1 := by
    have cuts := List.isChain_getLast_head_splitBy
      (fun d e : Declaration => d.package = e.package) (types.mergeSort precedes)
    rw [groups, List.isChain_map]
    refine cuts.imp_of_mem_imp fun ds es first next cut => ?_
    obtain ⟨some, other, apart⟩ := cut
    have last := package_of_mem (List.mem_map_of_mem first) _ (List.getLast_mem some)
    have head := package_of_mem (List.mem_map_of_mem next) _ (List.head_mem other)
    exact fun same => of_decide_eq_false apart (last.trans (same.trans head.symm))
  have rising : ((groups types).map Prod.fst).Pairwise (· ≤ ·) := by
    have sorted := pairwise_sorted types
    rw [← flatten_groups, List.pairwise_flatten, List.pairwise_map] at sorted
    rw [List.pairwise_map]
    refine sorted.2.imp_of_mem fun first next before => ?_
    obtain ⟨d, own⟩ := List.exists_mem_of_ne_nil _ (group_ne_nil first)
    obtain ⟨e, other⟩ := List.exists_mem_of_ne_nil _ (group_ne_nil next)
    rw [← package_of_mem first d own, ← package_of_mem next e other]
    rcases precedes_iff.1 (before d own e other) with below | ⟨same, -⟩
    · exact Std.le_of_lt below
    · exact same ▸ String.le_refl _
  have step : ((groups types).map Prod.fst).IsChain (· < ·) := by
    rw [List.isChain_iff_getElem] at changes ⊢
    intro i inside
    have below := List.pairwise_iff_getElem.1 rising i (i + 1) (Nat.lt_of_succ_lt inside) inside
      (Nat.lt_succ_self i)
    have apart := changes i (by simpa using inside)
    simp only [List.getElem_map] at below ⊢
    grind
  exact step.pairwise

/-- A block has all types of its package. -/
theorem group_eq_filter {types : List Declaration} {g : String × List Declaration}
    (member : g ∈ groups types) :
    g.2 = (types.mergeSort precedes).filter (·.package = g.1) := by
  have each (gs : List (String × List Declaration)) (distinct : (gs.map Prod.fst).Nodup)
      (own : ∀ g ∈ gs, ∀ d ∈ g.2, d.package = g.1) (member : g ∈ gs) :
      (gs.map Prod.snd).flatten.filter (·.package = g.1) = g.2 := by
    induction gs with
    | nil => cases member
    | cons first gs ih =>
      rw [List.map_cons, List.nodup_cons] at distinct
      obtain ⟨apart, distinct⟩ := distinct
      obtain ⟨ofFirst, ofRest⟩ := List.forall_mem_cons.1 own
      rw [List.map_cons, List.flatten_cons, List.filter_append]
      rcases List.mem_cons.1 member with rfl | member
      · have whole : g.2.filter (·.package = g.1) = g.2 :=
          List.filter_eq_self.2 fun d inside => by simpa using ofFirst d inside
        have others : (gs.map Prod.snd).flatten.filter (·.package = g.1) = [] := by
          refine List.filter_eq_nil_iff.2 fun d inside same => apart ?_
          obtain ⟨ds, listed, inside⟩ := List.mem_flatten.1 inside
          obtain ⟨h, later, rfl⟩ := List.mem_map.1 listed
          rw [← of_decide_eq_true same, ofRest h later d inside]
          exact List.mem_map_of_mem later
        rw [whole, others, List.append_nil]
      · have none : first.2.filter (·.package = g.1) = [] := by
          refine List.filter_eq_nil_iff.2 fun d inside same => apart ?_
          rw [← ofFirst d inside, of_decide_eq_true same]
          exact List.mem_map_of_mem member
        rw [none, List.nil_append, ih distinct ofRest member]
  rw [← flatten_groups]
  refine (each _ ?_ (fun _ => package_of_mem) member).symm
  refine (packages_ascending types).imp fun {p q} below => ?_
  rintro rfl
  exact String.lt_irrefl p below

theorem ordered_group {types : List Declaration} {g : String × List Declaration}
    (member : g ∈ groups types) : Ordered (types.filter (·.package = g.1)) g.2 := by
  constructor
  · have sorted := pairwise_sorted types
    rw [← flatten_groups, List.pairwise_flatten] at sorted
    refine (sorted.1 g.2 (List.mem_map_of_mem member)).imp_of_mem fun first next before => ?_
    rcases precedes_iff.1 before with below | ⟨-, before⟩
    · rw [package_of_mem member _ first, package_of_mem member _ next] at below
      exact absurd below (String.lt_irrefl _)
    · exact before
  · intro name
    rw [group_eq_filter member, List.filter_filter, List.filter_filter]
    refine filter_sorted fun d e first next => precedes_iff.2 (.inr ?_)
    simp only [Bool.and_eq_true, decide_eq_true_eq] at first next
    obtain ⟨rfl, package⟩ := first
    exact ⟨package.trans next.2.symm, next.1 ▸ String.le_refl _⟩

theorem mem_groups_iff {types : List Declaration} {d : Declaration} :
    d ∈ types ↔ ∃ g ∈ groups types, d ∈ g.2 := by
  have sorted : d ∈ types.mergeSort precedes ↔ d ∈ types := List.mem_mergeSort
  rw [← sorted, ← flatten_groups]
  simp only [List.mem_flatten, List.mem_map]
  constructor
  · rintro ⟨_, ⟨g, member, rfl⟩, inside⟩
    exact ⟨g, member, inside⟩
  · rintro ⟨g, member, inside⟩
    exact ⟨_, ⟨g, member, rfl⟩, inside⟩

theorem grouped_groups (types : List Declaration) : Grouped types (groups types) := by
  refine ⟨packages_ascending types, fun package => ?_, fun g => ordered_group⟩
  constructor
  · intro listed
    obtain ⟨g, member, rfl⟩ := List.mem_map.1 listed
    obtain ⟨d, inside⟩ := List.exists_mem_of_ne_nil _ (group_ne_nil member)
    exact ⟨d, mem_groups_iff.2 ⟨g, member, inside⟩, package_of_mem member d inside⟩
  · rintro ⟨d, given, rfl⟩
    obtain ⟨g, member, inside⟩ := mem_groups_iff.1 given
    rw [package_of_mem member d inside]
    exact List.mem_map_of_mem member

/-! ## The text -/

theorem text_eq (types : List Declaration) :
    text types = String.join ((groups types).map fun g => packageText g.1 g.2) := by
  have each (bs : List (List Declaration)) (l : Layout) (outermost : l.depth = 0) :
      (bs.foldl (fun l ds => writePackage l ((ds.map (·.package)).headD "") ds) l).text =
        l.text ++ String.join (bs.map fun ds => packageText ((ds.map (·.package)).headD "") ds) := by
    induction bs generalizing l with
    | nil => simp
    | cons ds bs ih =>
      rw [List.foldl_cons, writePackage_eq outermost, ih _ rfl, List.map_cons, String.join_cons,
        String.append_assoc]
  unfold text groups
  rw [each _ _ rfl, List.map_map]
  exact String.empty_append

/-- Places and comments are not written. -/
theorem text_placeless (types : List Declaration) :
    text (types.map Declaration.placeless) = text types := by
  have sorted : (types.map Declaration.placeless).mergeSort precedes =
      (types.mergeSort precedes).map Declaration.placeless :=
    (List.map_mergeSort (f := Declaration.placeless) fun _ _ _ _ => rfl).symm
  have cut : packages (types.map Declaration.placeless) =
      (packages types).map (List.map Declaration.placeless) := by
    unfold packages
    rw [sorted]
    refine List.splitBy_eq_iff.2 ⟨?_, ?_, ?_, ?_⟩
    · rw [← List.map_flatten, List.flatten_splitBy]
    · intro empty
      obtain ⟨ds, inside, none⟩ := List.mem_map.1 empty
      exact List.ne_nil_of_mem_splitBy inside (List.map_eq_nil_iff.1 none)
    · intro mapped listed
      obtain ⟨ds, inside, rfl⟩ := List.mem_map.1 listed
      exact (List.isChain_map _).2 (List.isChain_of_mem_splitBy inside)
    · refine (List.isChain_map _).2 ((List.isChain_getLast_head_splitBy _ _).imp ?_)
      rintro ds es ⟨some, other, apart⟩
      refine ⟨by simpa using some, by simpa using other, ?_⟩
      rw [List.getLast_map, List.head_map]
      exact apart
  have package (ds : List Declaration) :
      ((ds.map Declaration.placeless).map (·.package)).headD "" = (ds.map (·.package)).headD "" := by
    cases ds <;> rfl
  have block (p : String) (ds : List Declaration) :
      packageText p (ds.map Declaration.placeless) = packageText p ds := by
    simp [packageText, Function.comp_def]
  rw [text_eq, text_eq]
  unfold groups
  rw [cut, List.map_map, List.map_map, List.map_map]
  simp only [Function.comp_def, package, block]

/-- Which package and name a type has. -/
def key (d : Declaration) : String × String := (d.package, d.name)

theorem text_perm {types others : List Declaration} (perm : types.Perm others)
    (distinct : (types.map key).Nodup) : text types = text others := by
  have same : types.mergeSort precedes = others.mergeSort precedes := by
    refine List.Perm.eq_of_pairwise (fun d e first next before after => ?_)
      (pairwise_sorted types) (pairwise_sorted others)
      ((List.mergeSort_perm types _).trans (perm.trans (List.mergeSort_perm others _).symm))
    refine List.inj_on_of_nodup_map distinct (List.mem_mergeSort.1 first)
      (perm.mem_iff.2 (List.mem_mergeSort.1 next)) ?_
    rw [precedes_iff] at before after
    unfold key
    grind
  unfold text packages
  rw [same]

end ApiListing

end IdlFrontEnd
