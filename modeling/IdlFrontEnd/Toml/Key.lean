import IdlFrontEnd.Toml.Quoted

/-!
# Keys of a settings file

A key is a bare word or a quoted text of one line, and a path is one key or more with dots between
them. Blanks may stand around keys and dots. Values and statements share the rules for what stands
between them: blanks, line breaks, and comments up to the end of their line.
-/
namespace IdlFrontEnd.Toml

def skipBlanks (cs : List Char) : List Char := cs.dropWhile isBlank

/-- What follows blanks, line breaks and comments. A character that no comment may hold stays. -/
def skipGap (inComment : Bool) : List Char → List Char
  | [] => []
  | '\n' :: cs => skipGap false cs
  | '\r' :: '\n' :: cs => skipGap false cs
  | c :: cs =>
    if inComment ∧ isPlain c then skipGap true cs
    else if c = '#' then skipGap true cs
    else if isBlank c then skipGap false cs
    else c :: cs

/-- What follows the end of a line, which may hold blanks and a comment. -/
def afterLine? (cs : List Char) : Option (List Char) :=
  let rest := match skipBlanks cs with
    | '#' :: comment => comment.dropWhile isPlain
    | rest => rest
  if rest.isEmpty then some [] else afterBreak? rest

def isBare (c : Char) : Bool :=
  c.isAlphanum || c = '-' || c = '_'

def key? (cs : List Char) : Option (String × List Char) :=
  let name := cs.takeWhile isBare
  if name.isEmpty then Quoted.onLine? cs
  else some (String.ofList name, cs.dropWhile isBare)

/-- No path has so many keys, and no value is nested in so many others. -/
def depthLimit : Nat := 80

/-- A path of at most `size` keys, with what follows it. -/
def pathWithin? : Nat → List Char → Option (List String × List Char)
  | 0, _ => none
  | size + 1, cs => do
    let (first, rest) ← key? (skipBlanks cs)
    match skipBlanks rest with
    | '.' :: rest =>
      let (others, rest) ← pathWithin? size rest
      return (first :: others, rest)
    | rest => return ([first], rest)

def path? (cs : List Char) : Option (List String × List Char) :=
  pathWithin? (depthLimit - 1) cs

end IdlFrontEnd.Toml
