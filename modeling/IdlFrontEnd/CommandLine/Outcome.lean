import IdlFrontEnd.CommandLine.Run
import IdlFrontEnd.CommandLine.Words
import IdlFrontEnd.Options.Settings

/-!
# Outcomes of a command line

The program with readers of its own, which follow how the libraries read command lines and settings.
What is said of a run does not rest on them. A request for the help or the version is met with status
0, and a command line that is refused has status 2.
-/
namespace IdlFrontEnd.CommandLine

def versionText : String := "aidl 0.1.0\n"

def helpText : String :=
  String.join <| List.map (· ++ "\n")
    ["Usage: aidl [OPTIONS] <COMMAND>", "",
     "Commands:",
     "  check <FILE>                      Load, resolve and validate one file",
     "  preprocess <OUT> <FILES>...       List the types of the files in preprocessed form",
     "  dump-api <FILES>... [--out OUT]   Render the API of the files by package",
     "  export <FILE>                     Print the resolved unit of one file as JSON", "",
     "Options:",
     "  --output <text|json>, --quiet, -I/--include <DIR>, -p/--preprocessed <FILE>,",
     "  --structured, --fail-on-parcelable, --config <FILE>, -v/--verbose"]

def Stop.refusal : Stop → Refusal
  | .help => ⟨0, helpText, ""⟩
  | .version => ⟨0, versionText, ""⟩
  | .misuse cause => ⟨2, "", "error: " ++ cause.message ++ "\n"⟩

namespace Readers

def ownSettings (text : String) : Except String Options :=
  match Options.ofToml? text with
  | some settings => .ok settings
  | none => .error "invalid settings"

def own : Readers := ⟨fun words => (Invocation.ofWords words).mapError Stop.refusal, ownSettings⟩

end Readers

def run (words : List String) (tree : FileTree) : Outcome := Readers.own.run words tree

end IdlFrontEnd.CommandLine
