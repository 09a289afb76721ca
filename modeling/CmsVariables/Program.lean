import CmsVariables.CommandLine
import CmsVariables.Run.Init

/-!
# The program

The program does what its command line asks for. Without a command it prints a help text.
-/

namespace CmsVariables.Program

open Run CommandLine

/-- The help text that is printed if no command is given. -/
def helpText : String :=
  "Collects RedDot variable annotations from JavaScript sources into an aligned variable listing\n" ++
  "\n" ++
  "Usage: reddot-vars [COMMAND]\n" ++
  "\n" ++
  "Commands:\n" ++
  "  build    Collect annotated variables into the RedDot variable listing\n" ++
  "  rewrite  Replace annotations with RedDot placeholder expressions\n" ++
  "  init     Initialize a new .reddotrc.json configuration file\n" ++
  "  help     Print this message or the help of the given subcommand(s)\n" ++
  "\n" ++
  "Options:\n" ++
  "  -h, --help     Print help\n" ++
  "  -V, --version  Print version"

/-- Carries out a command. -/
def execute (d : Disk) : Command → Outcome
  | .build options => build d options
  | .rewrite options => rewriteProject d options
  | .init => init d

/-- A run of the program with the given words. -/
def run (d : Disk) (words : List String) : Except Usage Outcome :=
  match parse words with
  | .error u => .error u
  | .ok (some command) => .ok (execute d command)
  | .ok none => .ok ⟨.ok .done, [[Console.plain helpText]], [], d⟩

end CmsVariables.Program
