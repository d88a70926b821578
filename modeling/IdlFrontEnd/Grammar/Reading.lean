import IdlFrontEnd.Token.Lexeme

/-!
# Reading lexemes

A reading holds the lexemes that are left, the place of the last one taken and what was reported so
far. A grammar rule takes lexemes from the front and either gives a value or rejects the lexeme it
stands at; what it has taken stays taken. Where a list of lexemes has run out, the end of the file
stands. The end is never taken.
-/
namespace IdlFrontEnd.Grammar

structure Reading where
  rest : List Lexeme
  previous : Location
  notes : List Diagnostic

namespace Reading

def current (r : Reading) : Lexeme :=
  r.rest.head?.getD (.eof r.previous.file r.previous.stop)

def token (r : Reading) : Token := r.current.token

def take (r : Reading) : Reading :=
  match r.rest with
  | [] => r
  | lexeme :: rest => { r with rest, previous := lexeme.location }

def report (r : Reading) (notes : List Diagnostic) : Reading :=
  { r with notes := r.notes ++ notes }

end Reading

structure Rejection where
  location : Location
  cause : Cause

/-- A rule that may reject. -/
abbrev Rule := EStateM Rejection Reading

/-- A rule that always gives a value. -/
abbrev Total := EStateM Empty Reading

def Total.toRule {α : Type} (rule : Total α) : Rule α := fun r =>
  match rule r with
  | .ok a next => .ok a next

def current : Rule Lexeme := fun r => .ok r.current r

def token : Rule Token := fun r => .ok r.token r

def take : Rule Unit := fun r => .ok () r.take

def report (notes : List Diagnostic) : Rule Unit := fun r => .ok () (r.report notes)

def reject {α : Type} (cause : Cause) : Rule α := fun r => .error ⟨r.current.location, cause⟩ r

def expected {α : Type} (wanted : String) : Rule α := fun r =>
  reject (.expected wanted r.token.text) r

/-- From the start of `first` to the end of the last lexeme taken. -/
def spanFrom (first : Lexeme) : Rule Location := fun r =>
  .ok (first.location.upTo r.previous) r

/-- Takes the token `t` if it is next. -/
def accept (t : Token) : Rule Bool := do
  if (← token) = t then
    take
    return true
  else return false

def expect (t : Token) : Rule Unit := do
  if (← token) = t then take else expected t.text

/-- Gives the value and reports what came with it. -/
def reported {α : Type} (found : α × List Diagnostic) : Rule α := do
  report found.2
  return found.1

/-- The items that follow as long as the next token asks for `more`. An item that takes nothing is
the last one. -/
def manyWhile {ε α : Type} (more : Token → Bool) (item : EStateM ε Reading α) :
    EStateM ε Reading (List α) := fun r =>
  if more r.token then
    match item r with
    | .error e next => .error e next
    | .ok a next =>
      if next.rest.length < r.rest.length then
        match manyWhile more item next with
        | .error e final => .error e final
        | .ok as final => .ok (a :: as) final
      else .ok [a] next
  else .ok [] r
termination_by r => r.rest.length

/-- One item or more, with commas between them. -/
def separated {α : Type} (item : Rule α) : Rule (List α) := do
  let first ← item
  let others ← manyWhile (· = .mark .comma) do
    take
    item
  return first :: others

/-- A rejection by `item` is reported, and reading goes on where `recover` says. -/
def attempt {α : Type} (recover : List Lexeme → List Lexeme) (item : Rule α) :
    Total (Option α) := fun r =>
  match item r with
  | .ok a next => .ok (some a) next
  | .error e next =>
    .ok none { next.report [.atPlace e.location e.cause] with rest := recover next.rest }

end IdlFrontEnd.Grammar
