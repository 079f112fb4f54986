import EnvSpec.Text.LetterCase

/-!
# Manifest formats

A manifest is written as TOML or as JSON, and the extension of its file name says which.
-/
namespace EnvSpec

inductive Format where
  | toml | json
deriving Repr, DecidableEq

def Format.name : Format → String
  | toml => "TOML"
  | json => "JSON"

/-- The format that an extension stands for, in either case of letters. -/
def Format.ofExtension? (extension : String) : Option Format :=
  match Text.lower extension with
  | "toml" => some toml
  | "json" => some json
  | _ => none

end EnvSpec
