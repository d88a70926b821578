import IdlFrontEnd.Check.Verdict
import IdlFrontEnd.Declaration.Basic

/-!
# Numbering methods

Either every method of an interface has a number written in the file or none has. Written numbers
are different and in range; otherwise the methods are numbered from zero in the order of writing.
The first mistake is reported and nothing is numbered.

The program has 32 bits with a sign for a number. A written one is in range anyhow, and counting from
zero stays within 32 bits for fewer than 2 ^ 31 methods.
-/
namespace IdlFrontEnd.Method

/-- The first mistake in the numbers of methods, after methods with the numbers `used`, one of
which may have had none. -/
def idProblem? (file : String) (used : List Int) (unnumbered : Bool) :
    List Method → Option Diagnostic
  | [] => none
  | m :: ms =>
    match m.id.written? with
    | some n =>
      if n ∈ used then some (.atPlace m.location (.repeatedMethodId n m.name))
      else if n < minMethodId ∨ maxMethodId < n then
        some (.atPlace m.location (.methodIdOutOfRange n m.name))
      else if unnumbered then some (.atFile file .someMethodIdsMissing)
      else idProblem? file (n :: used) unnumbered ms
    | none =>
      if used.isEmpty then idProblem? file used true ms
      else some (.atFile file .someMethodIdsMissing)

/-- The methods with numbers from zero on, unless theirs are written. -/
def numbered (methods : List Method) : List Method :=
  if methods.any (·.id.written?.isNone) then
    methods.zipIdx.map fun (m, i) => m.setId i
  else methods

/-- The methods with their numbers, or unchanged with the mistake in those they have. -/
def assignIds (file : String) (methods : List Method) : List Method × Option Diagnostic :=
  match idProblem? file [] false methods with
  | some problem => (methods, some problem)
  | none => (numbered methods, none)

end IdlFrontEnd.Method
