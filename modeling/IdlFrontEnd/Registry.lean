import IdlFrontEnd.Declaration.Basic

/-!
# The registry of type names

What is known about a type is its kind, its name and its package. The registry keeps two tables of
such records, one for types that were parsed and one for types that a preprocessed file lists. A
table holds one record for a canonical name, the first that was added, and is kept in ascending
order of these names. A second index leads from a simple name to the canonical names of its records,
and both always agree. A name is looked up as a canonical name and then as a simple one; parsed types
go first at each step, and of several records with one simple name the least canonical name is
taken.
-/
namespace IdlFrontEnd

structure TypeRecord where
  kind : Kind
  name : String
  package : List String
  deriving DecidableEq, Repr

namespace TypeRecord

def canonical (r : TypeRecord) : String := canonicalName r.package r.name

def ofDeclaration (d : Declaration) : TypeRecord := ⟨d.kind, d.name, d.header.package⟩

/-- Adds a record in front of the first one with a greater name. -/
def insertInto (r : TypeRecord) : List TypeRecord → List TypeRecord
  | [] => [r]
  | x :: xs => if r.canonical < x.canonical then r :: x :: xs else x :: insertInto r xs

theorem mem_insertInto {r x : TypeRecord} {xs : List TypeRecord} :
    x ∈ insertInto r xs ↔ x = r ∨ x ∈ xs := by
  induction xs with
  | nil => simp [insertInto]
  | cons y ys ih =>
    unfold insertInto
    split
    · simp
    · simp only [List.mem_cons, ih]
      constructor
      · rintro (h | h | h) <;> simp [h]
      · rintro (h | h | h) <;> simp [h]

def Ascending (xs : List TypeRecord) : Prop :=
  xs.Pairwise fun x y => x.canonical < y.canonical

theorem ascending_insertInto {r : TypeRecord} {xs : List TypeRecord} (sorted : Ascending xs)
    (fresh : ∀ x ∈ xs, x.canonical ≠ r.canonical) : Ascending (insertInto r xs) := by
  induction xs with
  | nil => simp [insertInto, Ascending]
  | cons y ys ih =>
    obtain ⟨below, rest⟩ := List.pairwise_cons.1 sorted
    unfold insertInto
    split
    · next less =>
      refine List.pairwise_cons.2 ⟨fun z hz => ?_, sorted⟩
      rcases List.mem_cons.1 hz with rfl | hz
      · exact less
      · exact Std.lt_trans less (below z hz)
    · next notLess =>
      have before : y.canonical < r.canonical :=
        Std.lt_of_le_of_ne (String.not_lt.1 notLess) (fresh y (by simp))
      refine List.pairwise_cons.2 ⟨fun z hz => ?_, ih rest fun x hx => fresh x (by simp [hx])⟩
      rcases mem_insertInto.1 hz with rfl | hz
      · exact before
      · exact below z hz

theorem insertInto_of_first {r : TypeRecord} {xs : List TypeRecord}
    (first : ∀ x ∈ xs, r.canonical < x.canonical) : insertInto r xs = r :: xs := by
  cases xs with
  | nil => rfl
  | cons x xs => rw [insertInto, if_pos (first x List.mem_cons_self)]

/-- Among ascending records it makes no difference whether some are left out before or after. -/
theorem filter_insertInto (p : TypeRecord → Bool) {r : TypeRecord} {xs : List TypeRecord}
    (sorted : Ascending xs) :
    (insertInto r xs).filter p = if p r then insertInto r (xs.filter p) else xs.filter p := by
  induction xs with
  | nil => by_cases own : p r <;> simp [insertInto, own]
  | cons y ys ih =>
    obtain ⟨below, rest⟩ := List.pairwise_cons.1 sorted
    by_cases less : r.canonical < y.canonical
    · have first : ∀ x ∈ y :: ys, r.canonical < x.canonical := by
        intro x member
        rcases List.mem_cons.1 member with rfl | later
        · exact less
        · exact Std.lt_trans less (below x later)
      have kept : ∀ x ∈ (y :: ys).filter p, r.canonical < x.canonical :=
        fun x member => first x (List.mem_filter.1 member).1
      rw [insertInto_of_first first, insertInto_of_first kept, List.filter_cons]
    · rw [insertInto, if_neg less, List.filter_cons, ih rest, List.filter_cons]
      by_cases kept : p y
      · by_cases own : p r <;> simp [insertInto, kept, own, less]
      · simp [kept]

/-- Adds a name in front of the first greater one, unless it is there. -/
def insertName (name : String) : List String → List String
  | [] => [name]
  | x :: xs =>
    if name < x then name :: x :: xs
    else if name = x then x :: xs
    else x :: insertName name xs

theorem map_insertInto {r : TypeRecord} {xs : List TypeRecord}
    (fresh : ∀ x ∈ xs, x.canonical ≠ r.canonical) :
    (insertInto r xs).map canonical = insertName r.canonical (xs.map canonical) := by
  induction xs with
  | nil => rfl
  | cons y ys ih =>
    obtain ⟨own, others⟩ := List.forall_mem_cons.1 fresh
    rw [insertInto, List.map_cons, insertName]
    split
    · rfl
    · rw [List.map_cons, ih others, if_neg (Ne.symm own)]

end TypeRecord

structure Table where
  records : List TypeRecord
  /-- The canonical names for a simple name. -/
  aliases : String → List String
  ascending : TypeRecord.Ascending records
  indexed : ∀ simple,
    aliases simple = (records.filter (·.name = simple)).map TypeRecord.canonical

namespace Table

def empty : Table := ⟨[], fun _ => [], List.Pairwise.nil, fun _ => rfl⟩

def find? (t : Table) (canonical : String) : Option TypeRecord :=
  t.records.find? (·.canonical = canonical)

/-- The record of this simple name with the least canonical name. -/
def alias? (t : Table) (simple : String) : Option TypeRecord :=
  (t.aliases simple).head?.bind t.find?

/-- The second index with the names of one more record. -/
def aliasesWith (t : Table) (r : TypeRecord) (simple : String) : List String :=
  if r.name = simple then TypeRecord.insertName r.canonical (t.aliases simple)
  else t.aliases simple

theorem aliasesWith_eq {t : Table} {r : TypeRecord}
    (fresh : ∀ x ∈ t.records, x.canonical ≠ r.canonical) (simple : String) :
    t.aliasesWith r simple =
      ((r.insertInto t.records).filter (·.name = simple)).map TypeRecord.canonical := by
  rw [aliasesWith, t.indexed, TypeRecord.filter_insertInto _ t.ascending]
  by_cases own : r.name = simple
  · have others : ∀ x ∈ t.records.filter (·.name = simple), x.canonical ≠ r.canonical :=
      fun x member => fresh x (List.mem_filter.1 member).1
    rw [if_pos own, if_pos (decide_eq_true own), TypeRecord.map_insertInto others]
  · rw [if_neg own, if_neg (by simpa using own)]

/-- The table with one more record, unless its canonical name is taken. -/
def add? (t : Table) (r : TypeRecord) : Option Table :=
  if fresh : ∀ x ∈ t.records, x.canonical ≠ r.canonical then
    some ⟨r.insertInto t.records, t.aliasesWith r,
      TypeRecord.ascending_insertInto t.ascending fresh, aliasesWith_eq fresh⟩
  else none

end Table

structure Registry where
  defined : Table
  preprocessed : Table

namespace Registry

def empty : Registry := ⟨.empty, .empty⟩

def builtins : List String :=
  ["void", "boolean", "byte", "char", "int", "long", "float", "double", "String", "List", "Map",
   "IBinder", "FileDescriptor", "CharSequence", "java.util.List", "java.util.Map"]

/-- The built-in types that hold other values and so can bring data back to a caller. -/
def containers : List String := ["List", "Map", "java.util.List", "java.util.Map"]

def isBuiltin (name : String) : Bool := name ∈ builtins

def addDefined? (g : Registry) (r : TypeRecord) : Option Registry :=
  (g.defined.add? r).map fun defined => { g with defined }

def addPreprocessed? (g : Registry) (r : TypeRecord) : Option Registry :=
  (g.preprocessed.add? r).map fun preprocessed => { g with preprocessed }

def lookup? (g : Registry) (name : String) : Option TypeRecord :=
  g.defined.find? name <|> g.preprocessed.find? name <|> g.defined.alias? name
    <|> g.preprocessed.alias? name

/-- The canonical name of a type in a file with these imports. A built-in name stands for itself.
The first import that ends in the name and is known goes before all other types. -/
def canonical? (g : Registry) (imports : List String) (name : String) : Option String :=
  if isBuiltin name then some name
  else
    let imported := (imports.filter (Text.lastTerm · = name)).findSome? g.lookup?
    (imported <|> g.lookup? name).map TypeRecord.canonical

/-- Whether a value of this type can carry data back to the caller. -/
def canBeOut (g : Registry) (t : TypeExpr) : Bool :=
  if t.head.isArray ∨ t.name ∈ containers then true
  else if isBuiltin t.name then false
  else (g.lookup? t.name).any (·.kind ≠ .interface)

/-- The records of parsed types, then those of preprocessed ones. -/
def records (g : Registry) : List TypeRecord := g.defined.records ++ g.preprocessed.records

end Registry

end IdlFrontEnd
