/-!
# File paths

A path is kept and shown as it was written. Its components are its names without repeated and
trailing slashes and without `.`, which counts only as the very first component of a relative path.
Paths are compared by components and joined as text.
-/
namespace IdlFrontEnd.Path

inductive Component where
  | root | here | up | name (text : String)
  deriving DecidableEq, Repr

def isAbsoluteText : List Char → Bool
  | '/' :: _ => true
  | _ => false

def isAbsolute (path : String) : Bool :=
  isAbsoluteText path.toList

def inner? (segment : List Char) : Option Component :=
  if segment = [] ∨ segment = ['.'] then none
  else if segment = ['.', '.'] then some .up
  else some (.name (String.ofList segment))

def components (path : String) : List Component :=
  let segments := path.toList.splitOn '/'
  let inside := segments.filterMap inner?
  if isAbsolute path then .root :: inside
  else if segments.head? = some ['.'] then .here :: inside
  else inside

/-- The path `rest` as seen from `base`. An absolute `rest` stands alone, and a `base` that is empty
or ends in a slash needs no separator. -/
def join (base rest : String) : String :=
  if isAbsolute rest ∨ base.isEmpty then rest
  else if base.toList.getLast? = some '/' then base ++ rest
  else base ++ "/" ++ rest

def joinAll (names : List String) : String :=
  names.foldl join ""

/-- Whether the last components of `path` are those of `tail`, compared whole. -/
def endsWith (path tail : String) : Bool :=
  (components tail).isSuffixOf (components path)

/-- Drops the slashes at the end of a path, and every `.` that follows a slash there. The text is
given back to front. -/
private def dropIdleEnd : List Char → List Char
  | '/' :: cs => dropIdleEnd cs
  | '.' :: '/' :: cs => dropIdleEnd ('/' :: cs)
  | cs => cs

/-- The text up to the end of the last component, cut before that component's first character. -/
private def cutLast (path : String) : List Char × List Char :=
  let back := dropIdleEnd path.toList.reverse
  ((back.dropWhile (· ≠ '/')).reverse, (back.takeWhile (· ≠ '/')).reverse)

/-- The last component if it is a name, with the text before it. -/
def fileName? (path : String) : Option (String × String) :=
  let (before, last) := cutLast path
  if (inner? last).any (· ≠ .up) then some (String.ofList before, String.ofList last) else none

/-- A file name up to its last dot, unless that dot is its first character or it has none. -/
def stem (name : String) : String :=
  match name.toList.splitOn '.' with
  | [] | [_] => name
  | parts =>
    let kept := List.intercalate ['.'] parts.dropLast
    if kept.isEmpty then name else String.ofList kept

theorem stem_of_dotless {name : String} (dotless : '.' ∉ name.toList) : stem name = name := by
  unfold stem
  rw [List.splitOn_eq_singleton dotless]

/-- Replaces what follows the last dot of the file name, or adds a dot and the extension. A path
without a file name stays as it is. -/
def withExtension (path extension : String) : String :=
  match fileName? path with
  | some (before, name) => before ++ stem name ++ "." ++ extension
  | none => path

theorem inner?_cons {c : Char} (dot : c ≠ '.') (cs : List Char) :
    inner? (c :: cs) = some (.name (String.ofList (c :: cs))) := by
  unfold inner?
  rw [if_neg (by simp [dot]), if_neg (by simp [dot])]

private theorem dropIdleEnd_cons {c : Char} (slash : c ≠ '/') (dot : c ≠ '.') (cs : List Char) :
    dropIdleEnd (c :: cs) = c :: cs := by
  unfold dropIdleEnd
  split
  next same => exact absurd (List.cons.inj same).1 slash
  next same => exact absurd (List.cons.inj same).1 dot
  · rfl

private theorem cutLast_append {front name : String}
    (slashed : front = "" ∨ front.toList.getLast? = some '/') (written : name ≠ "")
    (plain : ∀ c ∈ name.toList, c ≠ '/' ∧ c ≠ '.') :
    cutLast (front ++ name) = (front.toList, name.toList) := by
  obtain ⟨c, cs, back⟩ : ∃ c cs, name.toList.reverse = c :: cs :=
    List.exists_cons_of_ne_nil (by simpa using written)
  have own : c ≠ '/' ∧ c ≠ '.' := plain c (List.mem_reverse.1 (by simp [back]))
  have inside : ∀ d ∈ name.toList.reverse, (d ≠ '/' : Bool) = true := fun d member =>
    decide_eq_true (plain d (List.mem_reverse.1 member)).1
  have ended : front.toList.reverse.dropWhile (· ≠ '/') = front.toList.reverse ∧
      front.toList.reverse.takeWhile (· ≠ '/') = [] := by
    rcases slashed with rfl | last
    · exact ⟨rfl, rfl⟩
    · obtain ⟨before, whole⟩ := List.getLast?_eq_some_iff.1 last
      simp [whole]
  unfold cutLast
  rw [String.toList_append, List.reverse_append, back, List.cons_append,
    dropIdleEnd_cons own.1 own.2, ← List.cons_append, ← back]
  dsimp only
  rw [List.dropWhile_append_of_pos inside, List.takeWhile_append_of_pos inside, ended.1, ended.2,
    List.append_nil, List.reverse_reverse, List.reverse_reverse]

/-- A name without slashes and dots, alone or behind a slash, is the last component. -/
theorem fileName?_append {front name : String}
    (slashed : front = "" ∨ front.toList.getLast? = some '/') (written : name ≠ "")
    (plain : ∀ c ∈ name.toList, c ≠ '/' ∧ c ≠ '.') :
    fileName? (front ++ name) = some (front, name) := by
  obtain ⟨c, cs, chars⟩ : ∃ c cs, name.toList = c :: cs :=
    List.exists_cons_of_ne_nil (by simpa using written)
  have dot : c ≠ '.' := (plain c (by simp [chars])).2
  have named : inner? name.toList = some (.name name) := by
    rw [chars, inner?_cons dot, ← chars, String.ofList_toList]
  unfold fileName?
  rw [cutLast_append slashed written plain]
  simp [named]

/-- The path without its last component; the root and the empty path have no parent. -/
def parent? (path : String) : Option String :=
  let (before, last) := cutLast path
  if last.isEmpty then none
  else
    let kept := dropIdleEnd before.reverse
    some (if kept.isEmpty ∧ isAbsolute path then "/" else String.ofList kept.reverse)

/-- One name after the other without `.` and `..`. A `..` takes back the component before it, the
root included, and does nothing where none is left. -/
def normalForm (path : String) : List Component :=
  (components path).foldl step []
where
  step : List Component → Component → List Component
    | kept, .here => kept
    | kept, .up => kept.dropLast
    | kept, c => kept ++ [c]

def Component.text : Component → String
  | .root => "/"
  | .here => "."
  | .up => ".."
  | .name text => text

def ofComponents (parts : List Component) : String :=
  joinAll (parts.map Component.text)

def normalize (path : String) : String :=
  ofComponents (normalForm path)

end IdlFrontEnd.Path
