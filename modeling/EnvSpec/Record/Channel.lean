import EnvSpec.Error
import EnvSpec.Text.LetterCase

/-!
# Install channels

A dependency is installed from the standard channel of the environment or by the package installer
of the interpreter.
-/
namespace EnvSpec

inductive Channel where
  | standard | pip
deriving Repr, DecidableEq

namespace Channel

def name : Channel → String
  | standard => "standard"
  | pip => "pip"

def parse (word : String) : Except UnknownWord Channel :=
  match Text.lower word with
  | "standard" | "conda" | "default" => .ok standard
  | "pip" | "pypi" => .ok pip
  | _ => .error ⟨.channel, word⟩

end Channel

end EnvSpec
