import IdlFrontEnd.ApiText
import IdlFrontEnd.Unit.Load

/-!
# Listings of several files

The API listing loads every input file as a unit of its own and writes the types in packages:
packages in ascending order, in each of them the types in ascending order of names. The preprocessed
listing opens every input file without following its imports and lists the types in the order of
writing. Each file starts with an empty registry; the reporter is shared.

The program also has a fatal report, "failed to render api dump", for a package whose text cannot be
written. A layout takes every text, so this case never comes up, and the listing leaves it out: it
fails only where an input fails.
-/
namespace IdlFrontEnd

/-- Runs a step for each input file, each on an empty registry. -/
def Load.forInputs {α : Type} (step : String → Load α) : List String → Load (List α)
  | [] => return []
  | path :: paths => do
    modify fun c => { c with registry := .empty }
    let first ← step path
    return first :: (← forInputs step paths)

namespace ApiListing

/-- Packages in ascending order, and the types of a package in ascending order of names. -/
def precedes (d e : Declaration) : Bool :=
  d.package < e.package || (d.package = e.package && d.name ≤ e.name)

/-- The types by package. Types of one name stay in the order they are given in. -/
def packages (types : List Declaration) : List (List Declaration) :=
  (types.mergeSort precedes).splitBy fun d e => d.package = e.package

def text (types : List Declaration) : String :=
  ((packages types).foldl (fun l ds => writePackage l ((ds.map (·.package)).headD "") ds)
    Layout.empty).text

end ApiListing

def listApi (provider : SourceProvider) (options : Options) : Load String := do
  let units ← Load.forInputs (loadUnit provider options) options.inputFiles
  return ApiListing.text (units.map LoadedUnit.declaration)

def listPreprocessed (provider : SourceProvider) (options : Options) : Load String := do
  let builds ← Load.forInputs (Load.parse provider) options.inputFiles
  return Preprocessed.write (builds.filterMap fun b => b.takeDocument.1)

end IdlFrontEnd
