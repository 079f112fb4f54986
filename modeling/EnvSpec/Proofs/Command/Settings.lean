import EnvSpec.Proofs.Command.Agreement

/-!
# Arguments before settings

A configuration does nothing but fill in arguments: a command under a configuration is the command
with its missing arguments taken from there, under the default configuration. So a setting has no
influence where its argument is given, and two configurations that agree on the other settings make
the same program of a command, on every host.
-/
namespace EnvSpec

/-- A setting that stands in for an argument. -/
inductive Setting where
  | manifest | base | target | name | channels

/-- Two configurations have the same value for a setting. -/
def Setting.Agree (c d : Config) : Setting → Prop
  | manifest => c.extract.manifest = d.extract.manifest
  | base => c.extract.base = d.extract.base
  | target => c.extract.target = d.extract.target
  | name => c.environment.name = d.environment.name
  | channels => c.environment.channels = d.environment.channels

section Congruence
variable {α : Type} {given : Option α}

/-- What stands in for a value does not matter where the value is given. -/
theorem getD_congr_of_none {a b : α} (h : given = none → a = b) : given.getD a = given.getD b := by
  cases given with
  | none => exact h rfl
  | some _ => rfl

theorem or_congr_of_none {a b : Option α} (h : given = none → a = b) :
    given.or a = given.or b := by
  cases given with
  | none => exact h rfl
  | some _ => rfl

end Congruence

namespace Config

/-- The configured base counts where a variant is given and no path. -/
theorem sectionPath_filled (config other : Config) (path : Option String)
    (variant : Option Variant) :
    other.sectionPath (path.or (variant.map fun _ => config.extract.base)) variant =
      config.sectionPath path variant := by
  cases path <;> cases variant <;> rfl

theorem openManifest_filled {m : Type → Type} [Monad m] [Host m] (config other : Config)
    (directory : String) (explicit : Option String) :
    (other.openManifest directory (some (explicit.getD config.extract.manifest)) :
      Action m Manifest) = config.openManifest directory explicit := rfl

end Config

namespace ExtractArguments

/-- The command has an argument for the setting, and it is not given. -/
def LeavesOut (arguments : ExtractArguments) : Setting → Prop
  | .manifest => arguments.manifest = none
  | .base => arguments.path = none
  | .target => arguments.target = none
  | .name | .channels => False

/-- The settings in place of the arguments that are not given. -/
def filled (arguments : ExtractArguments) (config : Config) : ExtractArguments :=
  { arguments with
    path := arguments.path.or (arguments.variant.map fun _ => config.extract.base)
    target := some (arguments.target.getD config.extract.target)
    manifest := some (arguments.manifest.getD config.extract.manifest) }

theorem run_filled {m : Type → Type} [Monad m] [Host m] (arguments : ExtractArguments)
    (directory : String) (config other : Config) :
    ((arguments.filled config).run directory other : Action m Unit) =
      arguments.run directory config := by
  simp only [run, filled, Config.sectionPath_filled, Config.openManifest_filled, Option.getD_some]

theorem filled_congr {arguments : ExtractArguments} {c d : Config}
    (h : ∀ s, arguments.LeavesOut s → s.Agree c d) : arguments.filled c = arguments.filled d := by
  have hpath : arguments.path.or (arguments.variant.map fun _ => c.extract.base) =
      arguments.path.or (arguments.variant.map fun _ => d.extract.base) :=
    or_congr_of_none fun hnone => by
      have hbase : c.extract.base = d.extract.base := h .base hnone
      rw [hbase]
  have htarget : arguments.target.getD c.extract.target =
      arguments.target.getD d.extract.target := getD_congr_of_none (h .target)
  have hmanifest : arguments.manifest.getD c.extract.manifest =
      arguments.manifest.getD d.extract.manifest := getD_congr_of_none (h .manifest)
  rw [filled, filled, hpath, htarget, hmanifest]

end ExtractArguments

namespace SectionsArguments

def LeavesOut (arguments : SectionsArguments) : Setting → Prop
  | .manifest => arguments.manifest = none
  | .base | .target | .name | .channels => False

def filled (arguments : SectionsArguments) (config : Config) : SectionsArguments :=
  { arguments with manifest := some (arguments.manifest.getD config.extract.manifest) }

theorem run_filled {m : Type → Type} [Monad m] [Host m] (arguments : SectionsArguments)
    (directory : String) (config other : Config) :
    ((arguments.filled config).run directory other : Action m Unit) =
      arguments.run directory config := rfl

theorem filled_congr {arguments : SectionsArguments} {c d : Config}
    (h : ∀ s, arguments.LeavesOut s → s.Agree c d) : arguments.filled c = arguments.filled d := by
  have hmanifest : arguments.manifest.getD c.extract.manifest =
      arguments.manifest.getD d.extract.manifest := getD_congr_of_none (h .manifest)
  rw [filled, filled, hmanifest]

end SectionsArguments

namespace EnvFileArguments

def LeavesOut (arguments : EnvFileArguments) : Setting → Prop
  | .manifest => arguments.manifest = none
  | .base => arguments.base = none
  | .name => arguments.name = none
  | .channels => arguments.channels = []
  | .target => False

/-- The name may still be missing: then it is that of the project. -/
def filled (arguments : EnvFileArguments) (config : Config) : EnvFileArguments :=
  { arguments with
    base := arguments.base.or (some config.extract.base)
    name := arguments.name.or config.environment.name
    channels := arguments.channelsFor config
    manifest := some (arguments.manifest.getD config.extract.manifest) }

theorem nameFor_filled (arguments : EnvFileArguments) (config : Config) (manifest : Manifest) :
    (arguments.filled config).nameFor {} manifest = arguments.nameFor config manifest := by
  simp only [nameFor, filled, Option.none_or, Option.or_assoc]

theorem channelsFor_filled (arguments : EnvFileArguments) (config : Config) :
    (arguments.filled config).channelsFor {} = arguments.channelsFor config := by
  show (if (arguments.channelsFor config).isEmpty then [] else arguments.channelsFor config) = _
  split
  · next hempty => exact (List.isEmpty_iff.mp hempty).symm
  · rfl

theorem run_filled {m : Type → Type} [Monad m] [Host m] (arguments : EnvFileArguments)
    (directory : String) (config : Config) :
    ((arguments.filled config).run directory {} : Action m Unit) =
      arguments.run directory config := by
  have hpath : ({} : Config).sectionPath (arguments.filled config).base (some arguments.variant) =
      config.sectionPath arguments.base (some arguments.variant) :=
    Config.sectionPath_filled config {} arguments.base (some arguments.variant)
  have hvariant : (arguments.filled config).variant = arguments.variant := rfl
  unfold run
  simp only [nameFor_filled, channelsFor_filled, hvariant, hpath]
  rfl

theorem filled_congr {arguments : EnvFileArguments} {c d : Config}
    (h : ∀ s, arguments.LeavesOut s → s.Agree c d) : arguments.filled c = arguments.filled d := by
  have hbase : arguments.base.or (some c.extract.base) = arguments.base.or (some d.extract.base) :=
    or_congr_of_none fun hnone => congrArg some (h .base hnone)
  have hname : arguments.name.or c.environment.name = arguments.name.or d.environment.name :=
    or_congr_of_none (h .name)
  have hchannels : arguments.channelsFor c = arguments.channelsFor d := by
    unfold channelsFor
    split
    · next hempty => exact h .channels (List.isEmpty_iff.mp hempty)
    · rfl
  have hmanifest : arguments.manifest.getD c.extract.manifest =
      arguments.manifest.getD d.extract.manifest := getD_congr_of_none (h .manifest)
  rw [filled, filled, hbase, hname, hchannels, hmanifest]

end EnvFileArguments

namespace Command

def LeavesOut : Command → Setting → Prop
  | .extract arguments => arguments.LeavesOut
  | .sections arguments => arguments.LeavesOut
  | .envFile arguments => arguments.LeavesOut

def filled (command : Command) (config : Config) : Command :=
  match command with
  | .extract arguments => .extract (arguments.filled config)
  | .sections arguments => .sections (arguments.filled config)
  | .envFile arguments => .envFile (arguments.filled config)

theorem filled_congr {command : Command} {c d : Config}
    (h : ∀ s, command.LeavesOut s → s.Agree c d) : command.filled c = command.filled d := by
  cases command with
  | extract arguments => exact congrArg Command.extract (ExtractArguments.filled_congr h)
  | sections arguments => exact congrArg Command.sections (SectionsArguments.filled_congr h)
  | envFile arguments => exact congrArg Command.envFile (EnvFileArguments.filled_congr h)

section Hosts
variable {m : Type → Type} [Monad m] [Host m]

/-- The default configuration and the settings as arguments do what the configuration does. -/
theorem run_filled (command : Command) (directory : String) (config : Config) :
    ((command.filled config).run directory {} : Action m Unit) = command.run directory config := by
  cases command with
  | extract arguments => exact arguments.run_filled directory config {}
  | sections arguments => exact arguments.run_filled directory config {}
  | envFile arguments => exact arguments.run_filled directory config

theorem run_congr_of_agree (command : Command) (directory : String) {c d : Config}
    (h : ∀ s, command.LeavesOut s → s.Agree c d) :
    (command.run directory c : Action m Unit) = command.run directory d := by
  rw [← command.run_filled directory c, filled_congr h, command.run_filled directory d]

/-- The settings of a configuration only fill in the arguments that are left out. Configurations that
agree on these make the same program of a command, so no outcome and no effect differs. No command
looks at settings that it has no argument for, and with all its arguments it looks at none. -/
theorem settings_only_fill_in (directory : String) :
    (∀ (command : Command) (config : Config),
      (command.run directory config : Action m Unit) = (command.filled config).run directory {}) ∧
    (∀ (command : Command) (c d : Config), (∀ s, command.LeavesOut s → s.Agree c d) →
      (command.run directory c : Action m Unit) = command.run directory d) ∧
    (∀ (arguments : ExtractArguments) (config : Config) (environment : EnvironmentSettings),
      (arguments.run directory { config with environment } : Action m Unit) =
        arguments.run directory config) ∧
    (∀ (arguments : SectionsArguments) (config : Config) (environment : EnvironmentSettings),
      (arguments.run directory { config with environment } : Action m Unit) =
        arguments.run directory config) ∧
    (∀ (arguments : EnvFileArguments) (config : Config) (target : Target),
      (arguments.run directory { config with extract := { config.extract with target } } :
        Action m Unit) = arguments.run directory config) ∧
    (∀ (command : Command), (∀ s, ¬command.LeavesOut s) → ∀ c d : Config,
      (command.run directory c : Action m Unit) = command.run directory d) := by
  refine ⟨fun command config => (command.run_filled directory config).symm,
    fun command c d h => run_congr_of_agree command directory h, fun arguments config environment => ?_,
    fun arguments config environment => ?_, fun arguments config target => ?_,
    fun command h c d => run_congr_of_agree command directory fun s hs => absurd hs (h s)⟩
  · refine run_congr_of_agree (.extract arguments) directory fun s hs => ?_
    cases s with
    | manifest | base | target => rfl
    | name | channels => exact hs.elim
  · refine run_congr_of_agree (.sections arguments) directory fun s hs => ?_
    cases s with
    | manifest => rfl
    | base | target | name | channels => exact hs.elim
  · refine run_congr_of_agree (.envFile arguments) directory fun s hs => ?_
    cases s with
    | manifest | base | name | channels => rfl
    | target => exact hs.elim

end Hosts

/-- An environment file for which only the channels are left to the configuration. -/
def namedEnvFile : Command := .envFile { EnvFileArguments.mixedArguments with name := some "myia" }

/-- Two configurations with nothing in common but the channels. -/
theorem settings_only_fill_in_channels_left :
    let c : Config := {
      extract := { manifest := "gone.toml", base := "tool", target := .pip }
      environment := { name := some "other", channels := ["pytorch"] } }
    let d : Config := { environment := { channels := ["pytorch"] } }
    (∀ s, namedEnvFile.LeavesOut s → s.Agree c d) ∧
    EnvFileArguments.mixedMachine.perform (namedEnvFile.run "/work" c) =
      EnvFileArguments.mixedMachine.perform (namedEnvFile.run "/work" d) := by
  intro c d
  have hagree : ∀ s, namedEnvFile.LeavesOut s → s.Agree c d := by
    intro s hs
    cases s with
    | channels => rfl
    | manifest | base | name => cases hs
    | target => exact hs.elim
  obtain ⟨-, hsame, -⟩ := settings_only_fill_in (m := StateM Machine) "/work"
  exact ⟨hagree, congrArg _ (hsame namedEnvFile c d hagree)⟩

end Command

end EnvSpec
