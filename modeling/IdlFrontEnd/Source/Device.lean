/-!
# Devices

Some files of every system hold nothing. What is written to them is lost, refused or shown on one of
the two outputs, and what is read from them is empty, as the program is given no input.
-/
namespace IdlFrontEnd

inductive Device where
  | null | full | input | output | errors
  deriving DecidableEq, Repr

namespace Device

def name : Device → String
  | .null => "null"
  | .full => "full"
  | .input => "stdin"
  | .output => "stdout"
  | .errors => "stderr"

/-- The device of this name in the folder of devices. -/
def ofName? (name : String) : Option Device :=
  [null, full, input, output, errors].find? (·.name = name)

end Device

end IdlFrontEnd
