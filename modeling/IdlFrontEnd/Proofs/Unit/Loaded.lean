import IdlFrontEnd.Unit.Loaded

/-!
# Documents below imports

The document of a file is attached to the import that it was read for, and its own imports may hold
documents in turn.
-/
namespace IdlFrontEnd

/-- The document is attached to one of these imports or to an import somewhere below them. -/
inductive Attached : List LoadedImport → LoadedDocument → Prop
  | direct {imports : List LoadedImport} {i : LoadedImport} {document : LoadedDocument}
      (member : i ∈ imports) (held : i.document = some document) : Attached imports document
  | deeper {imports : List LoadedImport} {i : LoadedImport} {outer document : LoadedDocument}
      (member : i ∈ imports) (held : i.document = some outer)
      (inner : Attached outer.imports document) : Attached imports document

namespace Attached

variable {imports more : List LoadedImport} {document : LoadedDocument}

theorem mono (attached : Attached imports document) (part : imports ⊆ more) :
    Attached more document := by
  cases attached with
  | direct member held => exact .direct (part member) held
  | deeper member held inner => exact .deeper (part member) held inner

end Attached

end IdlFrontEnd
