/-!
# Annotations

The language knows three annotations. A node carries a set of them, which is shown in a fixed
order whatever the order of writing.
-/
namespace IdlFrontEnd

inductive Annotation where
  | nullable | utf8 | utf8InCpp
  deriving DecidableEq, Repr

namespace Annotation

def all : List Annotation := [.nullable, .utf8, .utf8InCpp]

def name : Annotation → String
  | .nullable => "nullable"
  | .utf8 => "utf8"
  | .utf8InCpp => "utf8InCpp"

def ofName? (word : String) : Option Annotation :=
  all.find? (·.name = word)

theorem ofName?_eq_some_iff {word : String} {a : Annotation} :
    ofName? word = some a ↔ word = a.name := by
  constructor
  · intro h
    unfold ofName? at h
    have same := List.find?_some h
    exact (of_decide_eq_true same).symm
  · rintro rfl
    cases a <;> rfl

def text (a : Annotation) : String :=
  "@" ++ a.name

end Annotation

structure AnnotationSet where
  nullable : Bool
  utf8 : Bool
  utf8InCpp : Bool
  deriving DecidableEq, Repr

namespace AnnotationSet

def empty : AnnotationSet := ⟨false, false, false⟩

def contains (s : AnnotationSet) : Annotation → Bool
  | .nullable => s.nullable
  | .utf8 => s.utf8
  | .utf8InCpp => s.utf8InCpp

def insert (s : AnnotationSet) : Annotation → AnnotationSet
  | .nullable => { s with nullable := true }
  | .utf8 => { s with utf8 := true }
  | .utf8InCpp => { s with utf8InCpp := true }

def ofList (annotations : List Annotation) : AnnotationSet :=
  annotations.foldl insert empty

def union (s t : AnnotationSet) : AnnotationSet :=
  ⟨s.nullable || t.nullable, s.utf8 || t.utf8, s.utf8InCpp || t.utf8InCpp⟩

theorem empty_union (s : AnnotationSet) : empty.union s = s := rfl

theorem union_comm (s t : AnnotationSet) : s.union t = t.union s := by
  simp [union, Bool.or_comm]

theorem insert_union (s t : AnnotationSet) (a : Annotation) :
    (s.union t).insert a = s.union (t.insert a) := by
  cases a <;> simp [insert, union]

theorem ofList_append (as bs : List Annotation) :
    ofList (as ++ bs) = (ofList as).union (ofList bs) := by
  have insertAll (s t : AnnotationSet) :
      bs.foldl insert (s.union t) = s.union (bs.foldl insert t) := by
    induction bs generalizing t with
    | nil => rfl
    | cons b bs ih =>
      rw [List.foldl_cons, insert_union, ih]
      rfl
  unfold ofList
  rw [List.foldl_append, ← insertAll, union_comm, empty_union]

def toList (s : AnnotationSet) : List Annotation :=
  Annotation.all.filter s.contains

/-- The annotations as written, one space between two of them. -/
def text (s : AnnotationSet) : String :=
  String.intercalate " " (s.toList.map Annotation.text)

/-- `body` with the annotations in front of it, if there are any. -/
def before (s : AnnotationSet) (body : String) : String :=
  if s.toList.isEmpty then body else s.text ++ " " ++ body

end AnnotationSet

end IdlFrontEnd
