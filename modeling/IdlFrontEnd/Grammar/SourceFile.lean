import IdlFrontEnd.Grammar.Member
import IdlFrontEnd.Grammar.Recovery

/-!
# Source files

`file := [package name ;] (import name ; | declaration)*`, where a declaration is
`annotation* parcelable name (; | cpp_header string ; | { field* })` or
`annotation* [oneway] interface word { member* }`. Reading a file always gives a result: what is
rejected is reported and left out.
-/
namespace IdlFrontEnd.Grammar

/-- The members of a body, up to the brace that closes it. -/
def body {α : Type} (item : Rule α) : Rule (List α) := do
  let found ← Total.toRule <| manyWhile (fun t => t ≠ .mark .closeBrace && t ≠ .eof) <|
    attempt afterMember item
  expect (.mark .closeBrace)
  return found.filterMap id

def unquoted (quoted : String) : String :=
  String.ofList (Text.dropTrailing (· = '"') (quoted.toList.dropWhile (· = '"')))

/-- The name carries the comments before the declaration. -/
def parcelable (first : Lexeme) (package : List String) : Rule Declaration := do
  expect (.word "parcelable")
  let name ← qualifiedNameWith first.comments
  if ← accept (.mark .semicolon) then
    return .ofParcelable (← spanFrom first) name package ""
  else if ← accept (.word "cpp_header") then
    match ← token with
    | .string quoted =>
      take
      expect (.mark .semicolon)
      return .ofParcelable (← spanFrom first) name package (unquoted quoted)
    | _ => expected "header path"
  else if ← accept (.mark .openBrace) then
    let fields ← body field
    return .ofFields (← spanFrom first) name package fields
  else expected "';', 'cpp_header' or '\x7b'"

def interface (first : Lexeme) (package : List String) : Rule Declaration := do
  let oneway ← accept (.word "oneway")
  expect (.word "interface")
  let name ← identifier
  expect (.mark .openBrace)
  let members ← body member
  return .ofMembers (← spanFrom first) name first.comments oneway members package

def declaration (package : List String) : Rule Declaration := do
  let first ← current
  let annotations ← annotations
  let next ← token
  let declared ←
    if next = .word "parcelable" then parcelable first package
    else if next = .word "interface" ∨ next = .word "oneway" then interface first package
    else expected "'parcelable' or 'interface'"
  return declared.annotate annotations

def packageStatement : Rule QualifiedName := do
  expect (.word "package")
  let name ← qualifiedName
  expect (.mark .semicolon)
  return name

def importStatement : Rule ImportStatement := do
  let first ← current
  expect (.word "import")
  let name ← qualifiedName
  expect (.mark .semicolon)
  return ⟨← spanFrom first, name.dotName⟩

/-- What stands at the top level after the package. -/
inductive Item where
  | importing (statement : ImportStatement) | declaring (declaration : Declaration)

def Item.statement? : Item → Option ImportStatement
  | .importing statement => some statement
  | .declaring _ => none

def Item.declaration? : Item → Option Declaration
  | .importing _ => none
  | .declaring declaration => some declaration

def item (package : List String) : Rule Item := do
  if (← token) = .word "import" then return .importing (← importStatement)
  else return .declaring (← declaration package)

structure SourceFile where
  package : Option QualifiedName
  imports : List ImportStatement
  types : List Declaration

def packageClause : Total (Option QualifiedName) := fun r =>
  if r.token = .word "package" then attempt afterDeclaration packageStatement r else .ok none r

def sourceFile : Total SourceFile := do
  let package ← packageClause
  let terms := (package.map QualifiedName.terms).getD []
  let found ← manyWhile (· ≠ .eof) (attempt afterDeclaration (item terms))
  let items := found.filterMap id
  return ⟨package, items.filterMap Item.statement?, items.filterMap Item.declaration?⟩

/-- Reads a whole list of lexemes, with what was reported on the way. -/
def SourceFile.ofLexemes (lexemes : List Lexeme) : SourceFile × List Diagnostic :=
  match sourceFile ⟨lexemes, .nowhere, []⟩ with
  | .ok file r => (file, r.notes)

end IdlFrontEnd.Grammar
