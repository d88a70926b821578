/-!
# Tokens

Words, numbers and strings keep the text they are written with; whether a word is a keyword and
whether a number has a value is decided later. The end of the text is a token too.
-/
namespace IdlFrontEnd

inductive Mark where
  | openBrace | closeBrace | openParen | closeParen | openBracket | closeBracket
  | less | greater | comma | semicolon | equals | dot | at
  deriving DecidableEq, Repr

namespace Mark

def all : List Mark :=
  [.openBrace, .closeBrace, .openParen, .closeParen, .openBracket, .closeBracket, .less, .greater,
   .comma, .semicolon, .equals, .dot, .at]

def char : Mark → Char
  | .openBrace => '{'
  | .closeBrace => '}'
  | .openParen => '('
  | .closeParen => ')'
  | .openBracket => '['
  | .closeBracket => ']'
  | .less => '<'
  | .greater => '>'
  | .comma => ','
  | .semicolon => ';'
  | .equals => '='
  | .dot => '.'
  | .at => '@'

def ofChar? (c : Char) : Option Mark :=
  all.find? (·.char = c)

end Mark

inductive Token where
  | word (text : String) | number (text : String) | string (quoted : String) | mark (m : Mark) | eof
  deriving DecidableEq, Repr

namespace Token

def quote (text : String) : String := "'" ++ text ++ "'"

/-- The token as a message names it. A string brings its own quotes. -/
def text : Token → String
  | .word text => quote text
  | .number text => quote text
  | .string quoted => quoted
  | .mark m => quote (String.singleton m.char)
  | .eof => "end of file"

end Token

end IdlFrontEnd
