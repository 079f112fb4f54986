import EnvSpec.Environment.Basic
import EnvSpec.Yaml.Scalar

/-!
# Environment files as YAML

The document is a mapping of the name, the channels, which are left out if there are none, and the
dependencies. Lists stand at the indentation of their key.
-/
namespace EnvSpec

namespace Yaml

/-- How much deeper a scalar's own lines stand than the line it begins on. -/
def indentStep : Nat := 2

/-- One item of a list that is indented by `indent`. -/
def listItem (indent : Nat) (s : String) : List Char :=
  List.replicate indent ' ' ++ '-' :: ' ' :: endLine (scalar (indent + indentStep) s)

/-- A key with a list of strings, in a mapping that is indented by `indent`. -/
def stringList (indent : Nat) (key : String) (items : List String) : List Char :=
  if items.isEmpty then key.toList ++ ": []\n".toList
  else key.toList ++ ":\n".toList ++ items.flatMap (listItem indent)

end Yaml

open Yaml

def Dependency.yaml : Dependency → List Char
  | .spec text => listItem 0 text
  | .pip lines => "- ".toList ++ stringList indentStep "pip" lines

namespace Environment

def nameYaml (name : String) : List Char := "name: ".toList ++ endLine (scalar indentStep name)

def channelsYaml (channels : List String) : List Char :=
  if channels.isEmpty then [] else stringList 0 "channels" channels

def dependenciesYaml (dependencies : List Dependency) : List Char :=
  if dependencies.isEmpty then "dependencies: []\n".toList
  else "dependencies:\n".toList ++ dependencies.flatMap Dependency.yaml

def yaml (e : Environment) : String :=
  String.ofList (nameYaml e.name ++ channelsYaml e.channels ++ dependenciesYaml e.dependencies)

end Environment

end EnvSpec
