/-!
# Lines and dotted names

A line ends at a line feed; a carriage return just before the line feed belongs to the line end.
The text after the last line feed is a line only if it is not empty, and it keeps a trailing
carriage return. A dotted name is cut at every dot.
-/
namespace IdlFrontEnd.Text

private def withoutReturn (line : List Char) : List Char :=
  if line.getLast? = some '\r' then line.dropLast else line

def lines (text : String) : List String :=
  let parts := text.toList.splitOn '\n'
  let rest := parts.getLast?.getD []
  (parts.dropLast.map withoutReturn ++ (if rest.isEmpty then [] else [rest])).map String.ofList

private theorem splitOn_ended (ls : List (List Char)) (plain : ∀ l ∈ ls, '\n' ∉ l) :
    (ls.flatMap (· ++ ['\n'])).splitOn '\n' = ls ++ [[]] := by
  induction ls with
  | nil => rfl
  | cons l ls ih =>
    obtain ⟨own, others⟩ := List.forall_mem_cons.1 plain
    rw [List.flatMap_cons, List.append_assoc, List.singleton_append,
      List.splitOn_append_cons_self_of_not_mem own, ih others, List.cons_append]

/-- Lines that were written with a line feed after each of them are found again. -/
theorem lines_join {ls : List String} (plain : ∀ l ∈ ls, '\n' ∉ l.toList)
    (ends : ∀ l ∈ ls, l.toList.getLast? ≠ some '\r') :
    lines (String.join (ls.map (· ++ "\n"))) = ls := by
  have parts : (String.join (ls.map (· ++ "\n"))).toList.splitOn '\n' =
      ls.map String.toList ++ [[]] := by
    rw [← splitOn_ended (ls.map String.toList) (by simpa using plain), String.toList_join,
      List.flatMap_map, List.flatMap_map]
    simp
  have kept : (ls.map String.toList).map withoutReturn = ls.map String.toList := by
    rw [List.map_map]
    refine List.map_congr_left fun l member => ?_
    exact if_neg (ends l member)
  unfold lines
  rw [parts]
  dsimp only
  rw [List.dropLast_concat, List.getLast?_concat, kept]
  simp [Function.comp_def]

/-- The terms between the dots; a name without dots is its own only term. -/
def dotted (name : String) : List String :=
  (name.toList.splitOn '.').map String.ofList

/-- The term after the last dot. -/
def lastTerm (name : String) : String :=
  (dotted name).getLast?.getD ""

def joinDots (terms : List String) : String :=
  String.intercalate "." terms

def startsWith (start text : String) : Bool :=
  start.toList.isPrefixOf text.toList

end IdlFrontEnd.Text
