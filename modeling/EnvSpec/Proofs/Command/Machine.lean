import EnvSpec.Proofs.Command.Plan

/-!
# Commands on given files

Every read of a plan finds what is stored, so on given files a plan ends with one step that they
determine. All commands that work on one section begin with the same function of the files,
`Config.selected`. The others read one manifest. What a command works out is a text, and its plan
ends with the delivery of that text or with a failure. On a machine that is a value, a command is
then a function that prints the text, writes it or fails.
-/
namespace EnvSpec

namespace FileTree

/-- The manifest in a file. -/
def manifest (files : FileTree) (path : String) : Except ManifestError Manifest :=
  match Format.ofPath path with
  | .error error => .error error
  | .ok format => Plan.manifestOf path format (files.read path)

/-- What is stored as a text is read as that text. -/
theorem manifest_of_read {files : FileTree} {path source : String} {format : Format}
    (hread : files.read path = .ok source.toUTF8) (hformat : Format.ofPath path = .ok format) :
    files.manifest path = Manifest.parse format source := by
  have hsource : String.fromUTF8? source.toUTF8 = some source := by
    unfold String.fromUTF8?
    rw [String.toUTF8_eq_toByteArray, dif_pos source.isValidUTF8]
    rfl
  have htext : Plan.textOf (.ok source.toUTF8) = .ok source := by
    unfold Plan.textOf
    dsimp only
    rw [hsource]
  unfold manifest
  rw [hformat, hread]
  dsimp only
  unfold Plan.manifestOf
  rw [htext]

end FileTree

/-- The manifest and the records that a command on one section works on. -/
def Config.selected (config : Config) (files : FileTree) (directory : String) (path : Option String)
    (variant : Option Variant) (explicit : Option String) :
    Except Failure (Manifest × List Record) := do
  let path ← config.sectionPath path variant
  let manifest ← (files.manifest (config.locateManifest directory explicit)).mapError .manifest
  let records ← (manifest.records path).mapError .manifest
  return (manifest, records)

theorem Config.selected_eq_ok {config : Config} {files : FileTree} {directory : String}
    {path : Option String} {variant : Option Variant} {explicit : Option String}
    {place : SectionPath} {manifest : Manifest} {records : List Record}
    (hplace : config.sectionPath path variant = .ok place)
    (hmanifest : files.manifest (config.locateManifest directory explicit) = .ok manifest)
    (hrecords : manifest.records place = .ok records) :
    config.selected files directory path variant explicit = .ok (manifest, records) := by
  unfold selected
  rw [hplace, hmanifest]
  dsimp only [bind, Except.bind, Except.mapError]
  rw [hrecords]
  rfl

namespace Plan

/-- The step that a plan ends with where the files are as given. -/
def ending (files : FileTree) : Plan → Step
  | last step => step
  | read path next => (next (files.read path)).ending files

/-- Whatever is observed of actions, a plan is observed as its last step where every read is
observed to find the given files. -/
theorem observe_perform {m : Type → Type} [Monad m] [Host m] {β : Type} (files : FileTree)
    (observe : Action m Unit → β)
    (hread : ∀ path (next : Except FileFault ByteArray → Action m Unit),
      observe (ExceptT.lift (Host.bytes path) >>= next) = observe (next (files.read path)))
    (plan : Plan) : observe plan.perform = observe (plan.ending files).perform := by
  induction plan with
  | last step => rfl
  | read path next ih => rw [perform, hread, ih, ending]

theorem ending_followedBy {α : Type} (files : FileTree) (result : Except Failure α)
    (next : α → Plan) :
    (followedBy result next).ending files =
      match result with
      | .ok a => (next a).ending files
      | .error failure => .fail failure := by
  cases result <;> rfl

theorem ending_withManifest (files : FileTree) (path : String) (next : Manifest → Plan) :
    (withManifest path next).ending files =
      match files.manifest path with
      | .ok manifest => (next manifest).ending files
      | .error error => .fail (.manifest error) := by
  unfold withManifest FileTree.manifest
  cases Format.ofPath path with
  | error error => rfl
  | ok format =>
    refine (ending_followedBy files ((manifestOf path format (files.read path)).mapError .manifest)
      next).trans ?_
    dsimp only
    cases manifestOf path format (files.read path) <;> rfl

theorem ending_withSelected (files : FileTree) (config : Config) (directory : String)
    (path : Option String) (variant : Option Variant) (explicit : Option String)
    (next : Manifest → List Record → Plan) :
    (withSelected config directory path variant explicit next).ending files =
      match config.selected files directory path variant explicit with
      | .ok (manifest, records) => (next manifest records).ending files
      | .error failure => .fail failure := by
  unfold withSelected Config.selected
  rw [ending_followedBy]
  cases config.sectionPath path variant with
  | error failure => rfl
  | ok place =>
    dsimp only
    rw [ending_withManifest]
    cases files.manifest (config.locateManifest directory explicit) with
    | error error => rfl
    | ok manifest =>
      dsimp only [Except.mapError, bind, Except.bind]
      rw [ending_followedBy]
      cases manifest.records place <;> rfl

end Plan

/-- The records that extraction prints. -/
def ExtractArguments.chosen (arguments : ExtractArguments) (files : FileTree) (directory : String)
    (config : Config) : Except Failure (List Record) :=
  (config.selected files directory arguments.path arguments.variant arguments.manifest).map
    fun selected => selected.2.filter fun r => arguments.channel.admits r.channel

/-- The environment of a variant. -/
def EnvFileArguments.environment (arguments : EnvFileArguments) (files : FileTree)
    (directory : String) (config : Config) : Except Failure Environment :=
  (config.selected files directory arguments.base (some arguments.variant) arguments.manifest).map
    fun (manifest, records) =>
      let name := arguments.nameFor config manifest
      (Environment.new name (arguments.channelsFor config)).add records

namespace Command

/-- The path that a command is to write to, as it was given. -/
def output? : Command → Option String
  | .extract _ => none
  | .sections _ => none
  | .envFile arguments => arguments.output

/-- The text that a command works out from the files. -/
def text (command : Command) (files : FileTree) (directory : String) (config : Config) :
    Except Failure String :=
  match command with
  | .extract arguments =>
    (arguments.chosen files directory config).map
      (Record.linesText (arguments.target.getD config.extract.target))
  | .sections arguments =>
    ((files.manifest (config.locateManifest directory arguments.manifest)).mapError .manifest).map
      arguments.listing
  | .envFile arguments => (arguments.environment files directory config).map (·.yaml)

/-- A command fails, or ends with the delivery of its text. -/
theorem ending_plan (command : Command) (files : FileTree) (directory : String) (config : Config) :
    (command.plan directory config).ending files =
      match command.text files directory config with
      | .ok text => .deliver (command.output?.map (Files.join directory)) text
      | .error failure => .fail failure := by
  cases command with
  | extract arguments =>
    show (arguments.plan directory config).ending files = _
    rw [ExtractArguments.plan, Plan.ending_withSelected, text, ExtractArguments.chosen]
    cases config.selected files directory arguments.path arguments.variant
      arguments.manifest <;> rfl
  | sections arguments =>
    show (arguments.plan directory config).ending files = _
    rw [SectionsArguments.plan, Plan.ending_withManifest, text]
    cases files.manifest (config.locateManifest directory arguments.manifest) <;> rfl
  | envFile arguments =>
    show (arguments.plan directory config).ending files = _
    rw [EnvFileArguments.plan, Plan.ending_withSelected, text, EnvFileArguments.environment]
    cases config.selected files directory arguments.base (some arguments.variant)
      arguments.manifest <;> rfl

end Command

namespace Machine

/-- The outcome of an action, and the machine after it. -/
def perform {ε α : Type} (machine : Machine) (action : ExceptT ε (StateM Machine) α) :
    Except ε α × Machine :=
  Id.run (action.run.run machine)

/-- The machine after one more text was printed. -/
def printed (machine : Machine) (text : String) : Machine :=
  { machine with output := machine.output ++ text }

/-- A command without a path to write to prints the text that it works out, or fails and leaves the
machine as it is. -/
theorem perform_run (machine : Machine) (command : Command) (directory : String) (config : Config)
    (hprinted : command.output? = none) :
    machine.perform (command.run directory config) =
      match command.text machine.files directory config with
      | .ok text => (.ok (), machine.printed text)
      | .error failure => (.error failure, machine) := by
  have hplan := Plan.observe_perform machine.files machine.perform (fun _ _ => rfl)
    (command.plan directory config)
  rw [command.run_eq_perform, hplan, command.ending_plan, hprinted]
  cases command.text machine.files directory config <;> rfl

/-- A command that prints fails exactly where it works out no text, with the same failure. -/
theorem perform_run_eq_error_iff (machine : Machine) (command : Command) (directory : String)
    (config : Config) (failure : Failure) (hprinted : command.output? = none) :
    (machine.perform (command.run directory config)).1 = .error failure ↔
      command.text machine.files directory config = .error failure := by
  rw [machine.perform_run command directory config hprinted]
  cases command.text machine.files directory config <;> simp

/-- Extraction prints the lines of the records that it chooses, each ended by a line break. -/
theorem perform_extract (machine : Machine) {arguments : ExtractArguments} {directory : String}
    {config : Config} {records : List Record}
    (hchosen : arguments.chosen machine.files directory config = .ok records) :
    machine.perform (arguments.run directory config) =
      (.ok (), machine.printed (String.join
        ((records.map (Record.line (arguments.target.getD config.extract.target))).map
          (· ++ "\n")))) := by
  have hrun := machine.perform_run (.extract arguments) directory config rfl
  rw [Command.text, hchosen] at hrun
  rw [← Record.linesText_eq]
  exact hrun

end Machine

end EnvSpec
