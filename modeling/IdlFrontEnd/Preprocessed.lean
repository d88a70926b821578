import IdlFrontEnd.Build
import IdlFrontEnd.Text.Blank

/-!
# Preprocessed files

A preprocessed file makes types known by name alone. Each of its lines holds a kind, a canonical
name and a semicolon; empty lines and lines that start with two slashes are passed over. Reading
stops at the first line of another form. Only in the report of such a line its number is used, of
which the last 32 bits are kept.
-/
namespace IdlFrontEnd.Preprocessed

private def bodyOf? (line : List Char) : Option (List Char) :=
  let kept := Text.trim line
  if kept.getLast? = some ';' then some kept.dropLast else none

/-- A record from a dotted name, whose last term must not be empty. -/
def recordOf? (kind : Kind) (qualified : String) : Option TypeRecord :=
  let terms := Text.dotted qualified
  match terms.getLast? with
  | none | some "" => none
  | some name => some ⟨kind, name, terms.dropLast⟩

def parseLine? (line : String) : Option TypeRecord := do
  match Text.words (← bodyOf? line.toList) with
  | [word, qualified] =>
    recordOf? (← Kind.ofKeyword? (String.ofList word)) (String.ofList qualified)
  | _ => none

/-- A line is read exactly if it is made of a kind, a name and a semicolon, with blanks between and
around them. -/
theorem parseLine?_eq_some_iff {line : String} {r : TypeRecord} :
    parseLine? line = some r ↔
      ∃ kept word qualified kind, Text.trim line.toList = kept ++ [';'] ∧
        Text.words kept = [word, qualified] ∧ Kind.ofKeyword? (String.ofList word) = some kind ∧
        recordOf? kind (String.ofList qualified) = some r := by
  have body (kept : List Char) :
      bodyOf? line.toList = some kept ↔ Text.trim line.toList = kept ++ [';'] := by
    unfold bodyOf?
    dsimp only
    split
    next closed =>
      obtain ⟨before, whole⟩ := List.getLast?_eq_some_iff.1 closed
      simp [whole]
    next unclosed =>
      constructor
      · intro h
        cases h
      · intro whole
        exact absurd (List.getLast?_eq_some_iff.2 ⟨kept, whole⟩) unclosed
  unfold parseLine?
  constructor
  · intro read
    obtain ⟨kept, closed, read⟩ := Option.bind_eq_some_iff.1 read
    split at read
    next word qualified words =>
      obtain ⟨kind, keyword, own⟩ := Option.bind_eq_some_iff.1 read
      exact ⟨kept, word, qualified, kind, (body kept).1 closed, words, keyword, own⟩
    · cases read
  · rintro ⟨kept, word, qualified, kind, closed, words, keyword, own⟩
    rw [(body kept).2 closed, Option.bind_eq_bind, Option.bind_some, words]
    dsimp only
    rw [keyword]
    exact own

def isPassedOver (line : String) : Bool := line.isEmpty || Text.startsWith "//" line

/-- Adds the records of lines that are numbered from `number` on, up to the first malformed one. -/
def addLines (file : String) (number : UInt32) (g : Registry) :
    List String → Registry × Option Diagnostic
  | [] => (g, none)
  | line :: lines =>
    if isPassedOver line then addLines file (number + 1) g lines
    else match parseLine? line with
      | some record =>
        addLines file (number + 1) ((g.addPreprocessed? record).getD g) lines
      | none =>
        let point : Point := ⟨number, 0⟩
        (g, some (.atPlace ⟨file, point, point⟩ (.preprocessedMalformed line)))

/-- Reads a file into the registry; false if it cannot be read or has a malformed line. -/
def read (provider : SourceProvider) (path : String) (c : Context) : Bool × Context :=
  match provider.read path with
  | .error error => (false, c.report [.atFile path (.preprocessedUnreadable error)])
  | .ok text =>
    let (registry, problem) := addLines path 1 c.registry (Text.lines text)
    (problem.isNone, { c with registry }.report problem.toList)

/-- Reads every file, whatever became of the ones before. -/
def readAll (provider : SourceProvider) : List String → Context → Bool × Context
  | [], c => (true, c)
  | path :: paths, c =>
    let (ok, next) := read provider path c
    let (others, last) := readAll provider paths next
    (ok && others, last)

def lineOf (r : TypeRecord) : String := r.kind.keyword ++ " " ++ r.canonical ++ ";"

/-- One line for each type of each document, in order. -/
def write (documents : List Document) : String :=
  String.join ((documents.flatMap Document.types).map fun d => lineOf (.ofDeclaration d) ++ "\n")

end IdlFrontEnd.Preprocessed
