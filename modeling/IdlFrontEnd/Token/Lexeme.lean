import IdlFrontEnd.Diagnostic
import IdlFrontEnd.Token.Piece

/-!
# Lexemes

A lexeme is a token with its place and with the comments written since the token before it. The
pieces of a text are laid out from the first point on; a comment waits for the next token, a stray
character is reported and skipped, and a comment or string that is never closed is reported and
ends the text where it ends.
-/
namespace IdlFrontEnd

structure Lexeme where
  token : Token
  location : Location
  comments : String
  deriving DecidableEq, Repr

namespace Lexeme

def eof (file : String) (point : Point) : Lexeme :=
  ⟨.eof, ⟨file, point, point⟩, ""⟩

/-- Lays out pieces from `point` on, with the comments that wait for a token. -/
def place (file : String) (point : Point) (comments : String) :
    List Piece → List Lexeme × List Diagnostic
  | [] => ([eof file point], [])
  | piece :: pieces =>
    let next := point.afterAll piece.text
    let span : Location := ⟨file, point, next⟩
    let text := String.ofList piece.text
    match piece.kind with
    | .blank => place file next comments pieces
    | .lineComment => place file next (comments ++ text ++ "\n") pieces
    | .blockComment => place file next (comments ++ text) pieces
    | .openComment => ([eof file next], [.atPlace span .openComment])
    | .openString => ([eof file next], [.atPlace span .openString])
    | .stray c =>
      let (lexemes, notes) := place file next comments pieces
      (lexemes, .atPlace span (.strayCharacter c) :: notes)
    | .token t =>
      let (lexemes, notes) := place file next "" pieces
      (⟨t, span, comments⟩ :: lexemes, notes)

/-- The lexemes of a text, always closed by the end of the file. -/
def ofText (file text : String) : List Lexeme × List Diagnostic :=
  place file ⟨1, 1⟩ "" (Piece.split text.toList)

/-- The same where arithmetic is checked. There is no answer if a line or a column would have to be
counted behind the largest number. -/
def ofTextChecked? (file text : String) : Option (List Lexeme × List Diagnostic) :=
  let pieces := Piece.split text.toList
  if Point.startsOver ⟨1, 1⟩ (pieces.flatMap Piece.text) then none
  else some (place file ⟨1, 1⟩ "" pieces)

end Lexeme

end IdlFrontEnd
