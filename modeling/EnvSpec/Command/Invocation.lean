import EnvSpec.Record.Channel
import EnvSpec.Requirement.Target
import EnvSpec.Section.Variant

/-!
# Invocations

What a command line asks for: one of three commands with its arguments, and the options that all
of them share.
-/
namespace EnvSpec

/-- The channels whose records are printed. -/
inductive ChannelChoice where
  | all
  | only (channel : Channel)
deriving Repr, DecidableEq

namespace ChannelChoice

def name : ChannelChoice → String
  | all => "all"
  | only channel => channel.name

/-- A choice by exactly its name. -/
def named? (word : String) : Option ChannelChoice :=
  [all, only .standard, only .pip].find? fun choice => choice.name == word

def admits : ChannelChoice → Channel → Bool
  | all, _ => true
  | only wanted, channel => wanted = channel

end ChannelChoice

structure ExtractArguments where
  path : Option String := none
  variant : Option Variant := none
  target : Option Target := none
  channel : ChannelChoice := .all
  manifest : Option String := none
deriving Repr, DecidableEq

structure SectionsArguments where
  manifest : Option String := none
  json : Bool := false
deriving Repr, DecidableEq

structure EnvFileArguments where
  base : Option String := none
  variant : Variant
  name : Option String := none
  channels : List String := []
  manifest : Option String := none
  output : Option String := none
deriving Repr, DecidableEq

inductive Command where
  | extract (arguments : ExtractArguments)
  | sections (arguments : SectionsArguments)
  | envFile (arguments : EnvFileArguments)
deriving Repr, DecidableEq

structure Invocation where
  verbose : Bool
  config : Option String
  command : Command
deriving Repr, DecidableEq

end EnvSpec
