import EnvSpec.Error

/-!
# Why a command fails
-/
namespace EnvSpec

inductive Failure where
  | manifest (error : ManifestError)
  | config (path : String) (fault : Option FileFault)
  | output (fault : FileFault)
  | noSection
deriving Repr, DecidableEq

/-- The text of a failure. A configuration that was read but is not well-formed has no fault of a
file. -/
def Failure.message : Failure → String
  | manifest error => error.message
  | config path none => s!"Invalid configuration at {path}"
  | config path (some fault) => s!"Invalid configuration at {path}: {fault.message}"
  | output fault => fault.message
  | noSection => "no section given: pass a dotted path or --variant"

end EnvSpec
