import EnvSpec.Requirement.Target
import EnvSpec.Toml.Reader

/-!
# Configuration

Settings that stand in for arguments that are not given. They are written in a TOML file with the
tables `extract` and `environment`; a setting that is missing has its default, and no other key is
allowed. A table of settings may also be written as an array of its values in order.
-/
namespace EnvSpec

structure ExtractSettings where
  manifest : String := "pyproject.toml"
  base : String := "custom.tool.conda"
  target : Target := .conda
deriving Repr, DecidableEq

structure EnvironmentSettings where
  name : Option String := none
  channels : List String := []
deriving Repr, DecidableEq

structure Config where
  extract : ExtractSettings := {}
  environment : EnvironmentSettings := {}
deriving Repr, DecidableEq

namespace Config

open Toml (Item Items)

/-- The settings of an item by name. Values of an array go by the order of the names, and those
beyond the last name are not looked at. -/
def fields? (names : List String) : Item → Option Items
  | .table _ entries => if entries.all fun e => names.contains e.1 then some entries else none
  | .array items => some (names.zip items)
  | _ => none

/-- The value of a setting, or its default if it is missing. -/
def setting {α : Type} (items : Items) (name : String) (default : α) (read : Item → Option α) :
    Option α :=
  match items.get? name with
  | none => some default
  | some item => read item

def string? : Item → Option String
  | .string text => some text
  | _ => none

def strings? : Item → Option (List String)
  | .array items => items.mapM string?
  | _ => none

/-- A target by exactly its name. -/
def targetNamed? (name : String) : Option Target :=
  [Target.conda, Target.pip].find? fun target => target.name == name

def isEmptyItem : Item → Bool
  | .array items => items.isEmpty
  | .table _ entries => entries.isEmpty
  | _ => false

/-- A target is written as its name, or as a table whose only key is the name and has nothing in
it. -/
def target? : Item → Option Target
  | .string name => targetNamed? name
  | .table _ [(name, item)] => if isEmptyItem item then targetNamed? name else none
  | _ => none

def extractSettings? (item : Item) : Option ExtractSettings := do
  let items ← fields? ["manifest", "base", "target"] item
  let unset : ExtractSettings := {}
  return {
    manifest := ← setting items "manifest" unset.manifest string?
    base := ← setting items "base" unset.base string?
    target := ← setting items "target" unset.target target? }

def environmentSettings? (item : Item) : Option EnvironmentSettings := do
  let items ← fields? ["name", "channels"] item
  return {
    name := ← setting items "name" none fun item => (string? item).map some
    channels := ← setting items "channels" [] strings? }

def ofItems? (items : Items) : Option Config := do
  guard (items.all fun e => ["extract", "environment"].contains e.1)
  return {
    extract := ← setting items "extract" {} extractSettings?
    environment := ← setting items "environment" {} environmentSettings? }

/-- A line break in a setting is a line feed, however the file writes it. -/
def conventions : Toml.Conventions where
  lineBreaks := .lineFeed
  maxDepth := 79
  maxKeyParts := 79
  negativeOverflow := true

/-- The configuration that a TOML text writes. -/
def parse? (content : String) : Option Config := do
  ofItems? (← Toml.readDocument? conventions content).items

end Config

end EnvSpec
