import IdlFrontEnd.Token.Lexeme

/-!
# Where reading goes on after a rejection

After a broken declaration reading goes on behind its closing brace or semicolon, or at the word or
annotation that starts the next one. After a broken member it goes on behind the next semicolon, or
at the brace that closes the body. Neither passes the end of the file.

The program counts in 32 bits with a sign. A count changes by at most one for each lexeme, so with
fewer than 2 ^ 31 of them the numbers are the same; behind that many it would start over at the
least number, or the program would stop.
-/
namespace IdlFrontEnd.Grammar

def declarationStarts : List Token :=
  [.mark .at, .word "parcelable", .word "interface", .word "oneway", .word "import",
   .word "package"]

/-- `depth` counts the braces that are open, and `moved` says whether anything was skipped: the
lexeme at which a declaration was rejected does not start the next one. -/
def afterDeclarationFrom (depth : Nat) (moved : Bool) : List Lexeme → List Lexeme
  | [] => []
  | lexeme :: rest =>
    match lexeme.token with
    | .eof => lexeme :: rest
    | .mark .openBrace => afterDeclarationFrom (depth + 1) true rest
    | .mark .closeBrace => if depth ≤ 1 then rest else afterDeclarationFrom (depth - 1) true rest
    | t =>
      if depth = 0 ∧ t = .mark .semicolon then rest
      else if depth = 0 ∧ moved ∧ t ∈ declarationStarts then lexeme :: rest
      else afterDeclarationFrom depth true rest

def afterDeclaration (lexemes : List Lexeme) : List Lexeme :=
  afterDeclarationFrom 0 false lexemes

/-- Braces and parentheses share one count, which closing parentheses may take below zero. -/
def afterMemberFrom (depth : Int) : List Lexeme → List Lexeme
  | [] => []
  | lexeme :: rest =>
    match lexeme.token with
    | .eof => lexeme :: rest
    | .mark .openBrace | .mark .openParen => afterMemberFrom (depth + 1) rest
    | .mark .closeParen => afterMemberFrom (depth - 1) rest
    | .mark .closeBrace => if depth ≤ 0 then lexeme :: rest else afterMemberFrom (depth - 1) rest
    | t => if depth ≤ 0 ∧ t = .mark .semicolon then rest else afterMemberFrom depth rest

def afterMember (lexemes : List Lexeme) : List Lexeme :=
  afterMemberFrom 0 lexemes

end IdlFrontEnd.Grammar
