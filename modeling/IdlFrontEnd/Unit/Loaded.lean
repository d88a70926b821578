import IdlFrontEnd.Declaration.Basic

/-!
# Loaded units

A unit is one declaration with the imports of its file. An import knows the file that its class was
found in, and holds the contents of that file if the file was read for this import; these have
imports of their own.
-/
namespace IdlFrontEnd

mutual
inductive LoadedImport where
  | mk (statement : ImportStatement) (file : Option String) (document : Option LoadedDocument)

inductive LoadedDocument where
  | mk (types : List Declaration) (imports : List LoadedImport)
end

namespace LoadedImport

def statement : LoadedImport → ImportStatement
  | ⟨statement, _, _⟩ => statement

def file : LoadedImport → Option String
  | ⟨_, file, _⟩ => file

def document : LoadedImport → Option LoadedDocument
  | ⟨_, _, document⟩ => document

/-- An import that nothing was found for. -/
def ofStatement (statement : ImportStatement) : LoadedImport := ⟨statement, none, none⟩

end LoadedImport

namespace LoadedDocument

def types : LoadedDocument → List Declaration
  | ⟨types, _⟩ => types

def imports : LoadedDocument → List LoadedImport
  | ⟨_, imports⟩ => imports

def ofDocument (d : Document) : LoadedDocument :=
  ⟨d.types, d.imports.map .ofStatement⟩

end LoadedDocument

structure LoadedUnit where
  declaration : Declaration
  imports : List LoadedImport

end IdlFrontEnd
