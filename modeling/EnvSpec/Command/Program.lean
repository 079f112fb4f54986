import EnvSpec.Command.Line
import EnvSpec.Command.Run

/-!
# The program

A run reads the command line and performs what it asks for. It ends with an exit code and perhaps a
message: zero and none on success, one where the command fails, two where the command line does not
ask for one.
-/
namespace EnvSpec.Program

variable {m : Type → Type} [Monad m] [Host m]

def name : String := "envboot"

def versionText : String := s!"{name} 0.1.0\n"

def helpText : String :=
  s!"Usage: {name} [OPTIONS] <COMMAND>\n\n" ++
  "Commands:\n" ++
  "  extract   Print the dependencies of a manifest section, one per line\n" ++
  "  sections  List the dependency sections a manifest defines\n" ++
  "  env-file  Write a conda environment file for a variant\n" ++
  "  help      Print this message\n"

/-- How a run ends. -/
structure Exit where
  code : Nat
  message : Option String
deriving Repr, DecidableEq

/-- How a run ends that was given no command: help and the version are printed and count as
success. -/
def stop (error : UsageError) : m Exit := do
  match error with
  | .helpRequested => Host.print helpText; return ⟨0, none⟩
  | .versionRequested => Host.print versionText; return ⟨0, none⟩
  | .nothingGiven => return ⟨2, some helpText⟩
  | .commandMissing => return ⟨2, some "error: a command is required"⟩
  | .commandUnknown => return ⟨2, some "error: unrecognized command"⟩
  | .argumentUnknown => return ⟨2, some "error: unexpected argument"⟩
  | .valueInvalid | .valueRejected => return ⟨2, some "error: invalid value"⟩
  | .valueUnexpected => return ⟨2, some "error: unexpected value"⟩
  | .requiredMissing => return ⟨2, some "error: a required argument is missing"⟩
  | .repeated => return ⟨2, some "error: an argument is given more than once"⟩

/-- A run in a working directory. The environment may name the manifest. -/
def run (directory : String) (manifest : Option String) (words : List String) : m Exit := do
  match CommandLine.read manifest words with
  | .error error => stop error
  | .ok invocation =>
    match ← (invocation.perform directory).run with
    | .ok () => return ⟨0, none⟩
    | .error failure => return ⟨1, some s!"error: {failure.message}"⟩

end EnvSpec.Program
