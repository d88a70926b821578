/-!
# Phases of a file

A file is scanned, built into a document, waits with its names deferred until the files it needs
have been built too, is resolved, and is done. A failure leaves it in the phase it had reached.
-/
namespace IdlFrontEnd

inductive Phase where
  | ready | scanning | building | deferredRegistration | resolving | done
  deriving DecidableEq, Repr

def Phase.name : Phase → String
  | .ready => "Ready"
  | .scanning => "Scanning"
  | .building => "Building"
  | .deferredRegistration => "DeferredRegistration"
  | .resolving => "Resolving"
  | .done => "Done"

end IdlFrontEnd
