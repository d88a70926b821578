import IdlFrontEnd.Path
import Mathlib.Data.List.Basic
import Mathlib.Data.List.Induction

/-!
# Components and joined paths

A path has a last component unless its text is empty, and a path that ends in another has the same
one. Joining names and replacing an extension never gives an empty text. A relative path that starts
with a name keeps its text and its components behind whatever it is joined to, and joined names are
told apart by the slashes between them.
-/
namespace IdlFrontEnd.Path

def last? (path : String) : Option Component := (components path).getLast?

/-- A character that is no slash starts the first segment. -/
theorem exists_splitOn_slash {c : Char} (other : c ≠ '/') (cs : List Char) :
    ∃ s ss, (c :: cs).splitOn '/' = (c :: s) :: ss := by
  obtain ⟨s, ss, parts⟩ := List.exists_cons_of_ne_nil (List.splitOn_ne_nil '/' cs)
  use s, ss
  rw [List.splitOn, List.splitOnP_cons_eq_if_modifyHead, if_neg (by simpa using other)]
  exact congrArg (List.modifyHead (List.cons c)) parts

theorem components_ne_nil {path : String} (written : path ≠ "") : components path ≠ [] := by
  unfold components isAbsolute
  cases chars : path.toList with
  | nil => exact absurd (String.toList_eq_nil_iff.1 chars) written
  | cons c cs =>
    by_cases slash : c = '/'
    · simp [slash, isAbsoluteText]
    · obtain ⟨s, ss, segments⟩ := exists_splitOn_slash slash cs
      simp only [segments]
      split
      · simp
      split
      · simp
      next named =>
        have inner : inner? (c :: s) ≠ none := by
          unfold inner?
          rw [if_neg (by simpa using named)]
          split <;> simp
        obtain ⟨first, found⟩ := Option.ne_none_iff_exists'.1 inner
        simp [found]

theorem last?_of_endsWith {path tail : String} (written : tail ≠ "")
    (ends : endsWith path tail = true) : last? path = last? tail := by
  obtain ⟨before, whole⟩ := List.isSuffixOf_iff_suffix.1 ends
  unfold last?
  rw [← whole, List.getLast?_append, List.getLast?_eq_some_getLast (components_ne_nil written),
    Option.some_or]

theorem join_ne_empty {base rest : String} (written : rest ≠ "") : join base rest ≠ "" := by
  unfold join
  split
  · exact written
  split <;> simp [written]

theorem joinAll_ne_empty {names : List String} (some : names ≠ [])
    (written : ∀ name ∈ names, name ≠ "") : joinAll names ≠ "" := by
  obtain ⟨front, last, rfl⟩ := (List.eq_nil_or_concat names).resolve_left some
  rw [joinAll, List.concat_eq_append, List.foldl_append]
  exact join_ne_empty (written last (by simp))

theorem withExtension_ne_empty {path : String} (written : path ≠ "") (extension : String) :
    withExtension path extension ≠ "" := by
  unfold withExtension
  split
  · simp
  · exact written

/-! ## Joining -/

/-- What comes before a relative path that is joined to `base`. -/
def lead (base : String) : String :=
  if base.isEmpty then "" else if base.toList.getLast? = some '/' then base else base ++ "/"

theorem lead_slashed (base : String) : lead base = "" ∨ (lead base).toList.getLast? = some '/' := by
  unfold lead
  split
  · exact .inl rfl
  split
  next slash => exact .inr slash
  · exact .inr (by simp)

theorem join_eq_lead_append {rest : String} (relative : isAbsolute rest = false) (base : String) :
    join base rest = lead base ++ rest := by
  unfold join lead
  by_cases empty : base.isEmpty = true
  · simp [empty]
  · by_cases slash : base.toList.getLast? = some '/'
    · simp [relative, empty, slash]
    · simp [relative, empty, slash]

theorem join_inj {base rest other : String} (relative : isAbsolute rest = false)
    (relative' : isAbsolute other = false) (same : join base rest = join base other) :
    rest = other := by
  rw [join_eq_lead_append relative, join_eq_lead_append relative'] at same
  have chars := congrArg String.toList same
  rw [String.toList_append, String.toList_append] at chars
  exact String.toList_inj.1 (List.append_cancel_left chars)

/-- The first component of the path is a name that does not start with a dot. -/
def StartsNamed (path : String) : Prop :=
  ∃ c cs, path.toList = c :: cs ∧ c ≠ '/' ∧ c ≠ '.'

theorem StartsNamed.relative {path : String} (named : StartsNamed path) :
    isAbsolute path = false := by
  obtain ⟨c, cs, chars, other, -⟩ := named
  simp [isAbsolute, chars, isAbsoluteText, other]

theorem StartsNamed.components {path : String} (named : StartsNamed path) :
    components path = (path.toList.splitOn '/').filterMap inner? := by
  have relative := named.relative
  obtain ⟨c, cs, chars, slash, dot⟩ := named
  have first : (path.toList.splitOn '/').head? ≠ some ['.'] := by
    obtain ⟨s, ss, segments⟩ := exists_splitOn_slash slash cs
    simp [chars, segments, dot]
  unfold Path.components
  simp [relative, first]

/-- Behind a slash the inner components of both parts stand side by side. -/
theorem components_slash {cs rest : List Char} (some : cs ≠ []) :
    components (String.ofList (cs ++ '/' :: rest)) =
      components (String.ofList cs) ++ (rest.splitOn '/').filterMap inner? := by
  obtain ⟨c, cs, rfl⟩ := List.exists_cons_of_ne_nil some
  have absolute : isAbsolute (String.ofList (c :: cs ++ '/' :: rest)) =
      isAbsolute (String.ofList (c :: cs)) := by
    unfold isAbsolute
    rw [String.toList_ofList, String.toList_ofList]
    by_cases slash : c = '/'
    · simp [isAbsoluteText, slash]
    · simp [isAbsoluteText, slash]
  have cut : (c :: cs ++ '/' :: rest).splitOn '/' = (c :: cs).splitOn '/' ++ rest.splitOn '/' :=
    List.splitOn_append_cons_self _ _
  have head : ((c :: cs).splitOn '/' ++ rest.splitOn '/').head? = ((c :: cs).splitOn '/').head? := by
    obtain ⟨s, ss, parts⟩ := List.exists_cons_of_ne_nil (List.splitOn_ne_nil '/' (c :: cs))
    rw [parts, List.cons_append, List.head?_cons, List.head?_cons]
  unfold Path.components
  rw [absolute, String.toList_ofList, String.toList_ofList, cut]
  dsimp only
  rw [head, List.filterMap_append]
  split
  · rfl
  split
  · rfl
  · rfl

/-- For a `rest` that starts neither with a slash nor with a `.` that counts. -/
theorem components_join_relative {rest : String} (relative : isAbsolute rest = false)
    (inside : components rest = (rest.toList.splitOn '/').filterMap inner?) (base : String) :
    components (join base rest) = components base ++ components rest := by
  rw [join_eq_lead_append relative, inside]
  unfold lead
  by_cases empty : base = ""
  · subst empty
    exact inside
  have written : base.toList ≠ [] := fun none => empty (String.toList_eq_nil_iff.1 none)
  rw [if_neg (by simpa using empty)]
  split
  next last =>
    obtain ⟨cs, whole⟩ := List.getLast?_eq_some_iff.1 last
    have spelled : base = String.ofList (cs ++ ['/']) := by rw [← whole, String.ofList_toList]
    have longer : base ++ rest = String.ofList (cs ++ '/' :: rest.toList) := by
      apply String.toList_inj.1
      simp [whole]
    rw [longer, spelled]
    cases cs with
    | nil =>
      have cut (cs : List Char) : ('/' :: cs).splitOn '/' = [] :: cs.splitOn '/' :=
        List.splitOn_append_cons_self [] cs
      unfold Path.components isAbsolute
      simp [isAbsoluteText, cut, inner?]
    | cons c cs =>
      rw [components_slash (List.cons_ne_nil c cs), components_slash (List.cons_ne_nil c cs)]
      simp [inner?]
  · have longer : base ++ "/" ++ rest = String.ofList (base.toList ++ '/' :: rest.toList) := by
      apply String.toList_inj.1
      simp
    rw [longer, components_slash written, String.ofList_toList]

theorem components_join {rest : String} (named : StartsNamed rest) (base : String) :
    components (join base rest) = components base ++ components rest :=
  components_join_relative named.relative named.components base

theorem endsWith_join {rest : String} (named : StartsNamed rest) (base : String) :
    endsWith (join base rest) rest = true := by
  rw [endsWith, components_join named, List.isSuffixOf_iff_suffix]
  exact List.suffix_append _ _

/-! ## Segments -/

/-- A name that stands for itself between two slashes. -/
structure IsSegment (name : String) : Prop where
  named : StartsNamed name
  whole : '/' ∉ name.toList

theorem IsSegment.components {name : String} (segment : IsSegment name) :
    components name = [.name name] := by
  have own : inner? name.toList = some (.name name) := by
    obtain ⟨c, cs, chars, -, dot⟩ := segment.named
    rw [chars, inner?_cons dot, ← chars, String.ofList_toList]
  rw [segment.named.components, List.splitOn_eq_singleton segment.whole]
  simp [own]

theorem IsSegment.extend {name extension : String} (segment : IsSegment name)
    (plain : '/' ∉ extension.toList) : IsSegment (name ++ "." ++ extension) := by
  obtain ⟨⟨c, cs, chars, other⟩, whole⟩ := segment
  exact ⟨⟨c, cs ++ '.' :: extension.toList, by simp [chars], other⟩, by simp [whole, plain]⟩

theorem joinAll_concat (front : List String) (last : String) :
    joinAll (front ++ [last]) = join (joinAll front) last := by
  rw [joinAll, List.foldl_append]
  rfl

theorem components_joinAll {names : List String} (segments : ∀ name ∈ names, IsSegment name) :
    components (joinAll names) = names.map .name := by
  induction names using List.reverseRecOn with
  | nil => rfl
  | append_singleton front last ih =>
    have own := segments last (by simp)
    rw [joinAll_concat, components_join own.named, own.components,
      ih fun name member => segments name (by simp [member])]
    simp

theorem joinAll_inj {names others : List String} (segments : ∀ name ∈ names, IsSegment name)
    (segments' : ∀ name ∈ others, IsSegment name) (same : joinAll names = joinAll others) :
    names = others := by
  have parts := congrArg components same
  rw [components_joinAll segments, components_joinAll segments'] at parts
  exact List.map_injective_iff.2 (fun _ _ => Component.name.inj) parts

theorem StartsNamed.join {base rest : String} (named : StartsNamed base)
    (relative : isAbsolute rest = false) : StartsNamed (join base rest) := by
  obtain ⟨c, cs, chars, other⟩ := named
  have more : ∃ after, lead base = base ++ after := by
    unfold lead
    split
    next empty => simp [String.isEmpty_iff.1 empty] at chars
    split
    · exact ⟨"", by simp⟩
    · exact ⟨"/", rfl⟩
  obtain ⟨after, longer⟩ := more
  rw [join_eq_lead_append relative, longer]
  exact ⟨c, cs ++ after.toList ++ rest.toList, by simp [chars], other⟩

theorem startsNamed_joinAll {names : List String} (some : names ≠ [])
    (segments : ∀ name ∈ names, IsSegment name) : StartsNamed (joinAll names) := by
  induction names using List.reverseRecOn with
  | nil => exact absurd rfl some
  | append_singleton front last ih =>
    have own := (segments last (by simp)).named
    rw [joinAll_concat]
    by_cases single : front = []
    · subst single
      rw [join_eq_lead_append own.relative]
      simpa [joinAll, lead] using own
    · exact (ih single fun name member => segments name (by simp [member])).join own.relative

/-- A file name without a dot gets the extension behind its own name. -/
theorem withExtension_join {base name : String} (segment : IsSegment name)
    (dotless : '.' ∉ name.toList) (extension : String) :
    withExtension (join base name) extension = join base (name ++ "." ++ extension) := by
  obtain ⟨c, cs, chars, slash, dot⟩ := segment.named
  have written : name ≠ "" := by
    rintro rfl
    cases chars
  have plain : ∀ d ∈ name.toList, d ≠ '/' ∧ d ≠ '.' := fun d member =>
    ⟨fun same => segment.whole (same ▸ member), fun same => dotless (same ▸ member)⟩
  have longer : StartsNamed (name ++ "." ++ extension) :=
    ⟨c, cs ++ '.' :: extension.toList, by simp [chars], slash, dot⟩
  rw [join_eq_lead_append segment.named.relative, join_eq_lead_append longer.relative,
    withExtension, fileName?_append (lead_slashed base) written plain]
  dsimp only
  rw [stem_of_dotless dotless, String.append_assoc, String.append_assoc, String.append_assoc]

end IdlFrontEnd.Path
