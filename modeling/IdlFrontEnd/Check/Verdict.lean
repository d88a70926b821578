import IdlFrontEnd.Diagnostic

/-!
# Verdicts

A check passes or fails and reports on the way, or it meets a fatal cause and stops. Checks that
run one after the other report in that order and pass together; the first one that stops ends them
all.
-/
namespace IdlFrontEnd

inductive Verdict where
  | done (passed : Bool) (notes : List Diagnostic)
  | stopped (notes : List Diagnostic) (fault : Fatal)
  deriving DecidableEq, Repr

namespace Verdict

def pass : Verdict := .done true []

/-- Fails with these diagnostics, and passes where there are none. -/
def ofNotes (notes : List Diagnostic) : Verdict := .done notes.isEmpty notes

def fault (f : Fatal) : Verdict := .stopped [] f

/-- Everything that was reported, the fatal cause last. -/
def notes : Verdict → List Diagnostic
  | .done _ notes => notes
  | .stopped notes f => notes ++ [f.diagnostic]

def result : Verdict → Except Fatal Bool
  | .done passed _ => .ok passed
  | .stopped _ f => .error f

def andThen : Verdict → Verdict → Verdict
  | .stopped notes f, _ => .stopped notes f
  | .done _ before, .stopped notes f => .stopped (before ++ notes) f
  | .done p before, .done q notes => .done (p && q) (before ++ notes)

/-- Runs the next check only if this one passed. -/
def ifPassed (v next : Verdict) : Verdict :=
  match v with
  | .done true before => andThen (.done true before) next
  | other => other

def all (vs : List Verdict) : Verdict := vs.foldr andThen pass

theorem ofNotes_andThen (notes more : List Diagnostic) :
    (ofNotes notes).andThen (ofNotes more) = ofNotes (notes ++ more) := by
  cases notes <;> simp [ofNotes, andThen]

end Verdict

end IdlFrontEnd
