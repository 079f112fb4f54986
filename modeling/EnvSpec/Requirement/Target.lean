import EnvSpec.Error
import EnvSpec.Text.LetterCase

/-!
# Targets

A target is the package manager whose requirement grammar is written.
-/
namespace EnvSpec

inductive Target where
  | conda | pip
deriving Repr, DecidableEq

namespace Target

def name : Target → String
  | conda => "conda"
  | pip => "pip"

def parse (word : String) : Except UnknownWord Target :=
  match Text.lower word with
  | "conda" | "mamba" => .ok conda
  | "pip" => .ok pip
  | _ => .error ⟨.target, word⟩

end Target

end EnvSpec
