import EnvSpec.Config.Basic
import EnvSpec.Failure
import EnvSpec.Files.Host
import EnvSpec.Files.Path

/-!
# Finding the configuration

A configuration file that is named has to be there. Otherwise the file of the usual name in the
working directory counts if it exists, and if it does not, every setting has its default.
-/
namespace EnvSpec.Config

variable {m : Type → Type} [Monad m] [Host m]

def fileName : String := "envboot.toml"

/-- The configuration that a text writes; `path` is where the text comes from. -/
def parse (path content : String) : Except Failure Config :=
  match parse? content with
  | some config => .ok config
  | none => .error (.config path none)

def load (path : String) : ExceptT Failure m Config := do
  match ← ExceptT.lift (Host.text path) with
  | .ok content => ExceptT.mk (pure (parse path content))
  | .error fault => throw (.config path (some fault))

def find (directory : String) (explicit : Option String) : ExceptT Failure m Config := do
  match explicit with
  | some path => load (Files.join directory path)
  | none =>
    let usual := Files.join directory fileName
    if ← ExceptT.lift (Host.isFile usual) then load usual else return {}

/-- The path of the manifest, an argument counting before the setting. -/
def locateManifest (config : Config) (directory : String) (explicit : Option String) : String :=
  Files.join directory (explicit.getD config.extract.manifest)

end EnvSpec.Config
