import EnvSpec.Command.Invocation
import EnvSpec.Config.Load
import EnvSpec.Environment.Yaml
import EnvSpec.Json.Text
import EnvSpec.Manifest.Load
import EnvSpec.Section.Records

/-!
# Running commands

Each command works out everything that can fail before it prints or writes, so a failure leaves
the machine as it was. An argument counts before the setting of the same meaning.
-/
namespace EnvSpec

variable {m : Type → Type} [Monad m] [Host m]

/-- A computation on a host that may fail. -/
abbrev Action (m : Type → Type) := ExceptT Failure m

namespace Action

def ofExcept {α : Type} (result : Except Failure α) : Action m α := ExceptT.mk (pure result)

def ofManifest {α : Type} (result : Except ManifestError α) : Action m α :=
  ofExcept (result.mapError .manifest)

def print (text : String) : Action m Unit := ExceptT.lift (Host.print text)

def write (path text : String) : Action m Unit :=
  ExceptT.mk do return (← Host.write path text).mapError .output

end Action

namespace Config

/-- The section that is meant: the given path, or the configured base where only a variant is
given. A variant means its section below. -/
def select (config : Config) (path : Option String) (variant : Option Variant) :
    Except Failure Selection :=
  match path, variant with
  | some path, _ => .ok ⟨path, variant⟩
  | none, some _ => .ok ⟨config.extract.base, variant⟩
  | none, none => .error .noSection

/-- The path of the section that is meant. -/
def sectionPath (config : Config) (path : Option String) (variant : Option Variant) :
    Except Failure SectionPath := do
  (← config.select path variant).path.mapError .manifest

/-- The manifest that is named by an argument or by the configuration. -/
def openManifest (config : Config) (directory : String) (explicit : Option String) :
    Action m Manifest :=
  (Manifest.load (config.locateManifest directory explicit)).adapt .manifest

end Config

/-- Prints the dependencies of a section as requirement lines. -/
def ExtractArguments.run (arguments : ExtractArguments) (directory : String) (config : Config) :
    Action m Unit := do
  let path ← Action.ofExcept (config.sectionPath arguments.path arguments.variant)
  let manifest ← config.openManifest directory arguments.manifest
  let records ← Action.ofManifest (manifest.records path)
  let chosen := records.filter fun r => arguments.channel.admits r.channel
  Action.print (Record.linesText (arguments.target.getD config.extract.target) chosen)

/-- Prints the sections of a manifest that hold dependencies. -/
def SectionsArguments.run (arguments : SectionsArguments) (directory : String) (config : Config) :
    Action m Unit := do
  let manifest ← config.openManifest directory arguments.manifest
  if arguments.json then Action.print (Json.listText manifest.sections ++ "\n")
  else Action.print (String.join (manifest.sections.map (· ++ "\n")))

namespace EnvFileArguments

/-- The name of an environment that is not given any other. -/
def defaultName : String := "environment"

/-- The name of the environment: as an argument or a setting has it, else that of the project. -/
def nameFor (arguments : EnvFileArguments) (config : Config) (manifest : Manifest) : String :=
  (arguments.name.or (config.environment.name.or (manifest.string? "project.name"))).getD
    defaultName

def channelsFor (arguments : EnvFileArguments) (config : Config) : List String :=
  if arguments.channels.isEmpty then config.environment.channels else arguments.channels

/-- Prints the environment of a variant, or writes it to a file. -/
def run (arguments : EnvFileArguments) (directory : String) (config : Config) : Action m Unit := do
  let path ← Action.ofExcept (config.sectionPath arguments.base (some arguments.variant))
  let manifest ← config.openManifest directory arguments.manifest
  let records ← Action.ofManifest (manifest.records path)
  let blank := Environment.new (arguments.nameFor config manifest) (arguments.channelsFor config)
  let yaml := (blank.add records).yaml
  match arguments.output with
  | none => Action.print yaml
  | some output => Action.write (Files.join directory output) yaml

end EnvFileArguments

def Command.run (command : Command) (directory : String) (config : Config) : Action m Unit :=
  match command with
  | .extract arguments => arguments.run directory config
  | .sections arguments => arguments.run directory config
  | .envFile arguments => arguments.run directory config

/-- Finds the configuration and runs the command. -/
def Invocation.perform (invocation : Invocation) (directory : String) : Action m Unit := do
  let config ← Config.find directory invocation.config
  invocation.command.run directory config

end EnvSpec
