import EnvSpec.Command.Run

/-!
# Plans of commands

On every host a command reads what it needs and ends with one step: it fails, prints one text or
writes one file. A plan is this shape as data, and each command is the plan that it carries out. So
whatever can stop a command comes before the only step that changes anything.
-/
namespace EnvSpec

/-- The step with which a command ends. -/
inductive Step where
  | fail (failure : Failure)
  | print (text : String)
  | write (path text : String)

/-- Files that are read one after the other, each depending on what was found before, and a last
step. -/
inductive Plan where
  | last (step : Step)
  | read (path : String) (next : Except FileFault ByteArray → Plan)

/-- A text is written to a path, and printed where there is none. -/
def Step.deliver (path : Option String) (text : String) : Step :=
  match path with
  | none => .print text
  | some path => .write path text

def Step.perform {m : Type → Type} [Monad m] [Host m] : Step → Action m Unit
  | fail failure => Action.ofExcept (.error failure)
  | print text => Action.print text
  | write path text => Action.write path text

namespace Plan

/-- Carries out a plan on a host. -/
def perform {m : Type → Type} [Monad m] [Host m] : Plan → Action m Unit
  | last step => step.perform
  | read path next => do (next (← ExceptT.lift (Host.bytes path))).perform

/-- Goes on with a result, or fails. -/
def followedBy {α : Type} (result : Except Failure α) (next : α → Plan) : Plan :=
  match result with
  | .ok a => next a
  | .error failure => last (.fail failure)

/-- The text that was found in a file. -/
def textOf (found : Except FileFault ByteArray) : Except FileFault String :=
  match found with
  | .error fault => .error fault
  | .ok content =>
    match String.fromUTF8? content with
    | some text => .ok text
    | none => .error .notText

/-- The manifest that was found in a file of a format. -/
def manifestOf (path : String) (format : Format) (found : Except FileFault ByteArray) :
    Except ManifestError Manifest :=
  match textOf found with
  | .ok source => Manifest.parse format source
  | .error fault => .error (.file path fault)

/-- Goes on with the manifest at a path. Its format is judged before it is read. -/
def withManifest (path : String) (next : Manifest → Plan) : Plan :=
  followedBy ((Format.ofPath path).mapError .manifest) fun format =>
    read path fun found => followedBy ((manifestOf path format found).mapError .manifest) next

/-- Goes on with the manifest and the records of the section that is meant. -/
def withSelected (config : Config) (directory : String) (path : Option String)
    (variant : Option Variant) (explicit : Option String)
    (next : Manifest → List Record → Plan) : Plan :=
  followedBy (config.sectionPath path variant) fun place =>
  withManifest (config.locateManifest directory explicit) fun manifest =>
  followedBy ((manifest.records place).mapError .manifest) fun records => next manifest records

end Plan

def ExtractArguments.plan (arguments : ExtractArguments) (directory : String) (config : Config) :
    Plan :=
  .withSelected config directory arguments.path arguments.variant arguments.manifest
    fun _ records =>
      let chosen := records.filter fun r => arguments.channel.admits r.channel
      .last (.print (Record.linesText (arguments.target.getD config.extract.target) chosen))

/-- The listing of the sections of a manifest. -/
def SectionsArguments.listing (arguments : SectionsArguments) (manifest : Manifest) : String :=
  if arguments.json then Json.listText manifest.sections ++ "\n"
  else String.join (manifest.sections.map (· ++ "\n"))

def SectionsArguments.plan (arguments : SectionsArguments) (directory : String) (config : Config) :
    Plan :=
  .withManifest (config.locateManifest directory arguments.manifest) fun manifest =>
    .last (.print (arguments.listing manifest))

def EnvFileArguments.plan (arguments : EnvFileArguments) (directory : String) (config : Config) :
    Plan :=
  .withSelected config directory arguments.base (some arguments.variant) arguments.manifest
    fun manifest records =>
      let name := arguments.nameFor config manifest
      let blank := Environment.new name (arguments.channelsFor config)
      .last (.deliver (arguments.output.map (Files.join directory)) (blank.add records).yaml)

def Command.plan (command : Command) (directory : String) (config : Config) : Plan :=
  match command with
  | .extract arguments => arguments.plan directory config
  | .sections arguments => arguments.plan directory config
  | .envFile arguments => arguments.plan directory config

theorem Action.run_ofExcept {m : Type → Type} [Monad m] {α : Type} (result : Except Failure α) :
    (ofExcept result : Action m α).run = pure result := rfl

section Hosts
variable {m : Type → Type} [Monad m] [LawfulMonad m] [Host m]

namespace Plan

theorem perform_followedBy {α : Type} (result : Except Failure α) (next : α → Plan) :
    (followedBy result next).perform =
      (Action.ofExcept result >>= fun a => (next a).perform : Action m Unit) := by
  apply ExceptT.ext
  rw [ExceptT.run_bind, Action.run_ofExcept, pure_bind]
  cases result <;> rfl

theorem text_eq (path : String) : (Host.text path : m _) = textOf <$> Host.bytes path := by
  rw [Host.text, map_eq_pure_bind]
  refine bind_congr fun found => ?_
  cases found with
  | error fault => rfl
  | ok content =>
    dsimp only [textOf]
    cases String.fromUTF8? content <;> rfl

theorem run_load (path : String) :
    (Manifest.load path : ExceptT ManifestError m Manifest).run =
      match Format.ofPath path with
      | .error error => pure (.error error)
      | .ok format => manifestOf path format <$> Host.bytes path := by
  unfold Manifest.load
  rw [ExceptT.run_bind]
  cases Format.ofPath path with
  | error error => exact pure_bind (m := m) (Except.error error) _
  | ok format =>
    refine (pure_bind (m := m) (Except.ok format) _).trans ?_
    dsimp only
    rw [ExceptT.run_bind, ExceptT.run_lift, text_eq]
    simp only [map_eq_pure_bind, bind_assoc, pure_bind]
    refine bind_congr fun found => ?_
    unfold manifestOf
    cases textOf found <;> rfl

theorem perform_withManifest (path : String) (next : Manifest → Plan) :
    (withManifest path next).perform =
      ((Manifest.load path).adapt .manifest >>= fun manifest => (next manifest).perform :
        Action m Unit) := by
  apply ExceptT.ext
  rw [withManifest, perform_followedBy, ExceptT.run_bind, ExceptT.run_bind]
  have hadapt : ((Manifest.load path : ExceptT ManifestError m Manifest).adapt
      Failure.manifest).run = Except.mapError .manifest <$> (Manifest.load path).run := rfl
  rw [hadapt, run_load]
  cases Format.ofPath path with
  | error error =>
    rw [map_pure, pure_bind]
    exact pure_bind (m := m) _ _
  | ok format =>
    rw [Action.run_ofExcept]
    refine (pure_bind (m := m) (Except.ok format) _).trans ?_
    dsimp only [perform]
    rw [ExceptT.run_bind, ExceptT.run_lift]
    simp only [map_eq_pure_bind, bind_assoc, pure_bind]
    refine bind_congr fun found => ?_
    rw [perform_followedBy, ExceptT.run_bind, Action.run_ofExcept, pure_bind]

theorem perform_withSelected (config : Config) (directory : String) (path : Option String)
    (variant : Option Variant) (explicit : Option String)
    (next : Manifest → List Record → Plan) :
    (withSelected config directory path variant explicit next).perform =
      (do
        let place ← Action.ofExcept (config.sectionPath path variant)
        let manifest ← config.openManifest directory explicit
        let records ← Action.ofManifest (manifest.records place)
        (next manifest records).perform : Action m Unit) := by
  rw [withSelected, perform_followedBy]
  refine bind_congr fun place => ?_
  rw [perform_withManifest]
  refine bind_congr fun manifest => ?_
  rw [perform_followedBy]
  rfl

end Plan

theorem ExtractArguments.run_eq_perform (arguments : ExtractArguments) (directory : String)
    (config : Config) :
    arguments.run directory config =
      ((arguments.plan directory config).perform : Action m Unit) := by
  rw [plan, Plan.perform_withSelected]
  rfl

theorem SectionsArguments.run_eq_perform (arguments : SectionsArguments) (directory : String)
    (config : Config) :
    arguments.run directory config =
      ((arguments.plan directory config).perform : Action m Unit) := by
  rw [plan, Plan.perform_withManifest]
  refine bind_congr fun manifest => ?_
  unfold listing
  cases arguments.json <;> rfl

theorem EnvFileArguments.run_eq_perform (arguments : EnvFileArguments) (directory : String)
    (config : Config) :
    arguments.run directory config =
      ((arguments.plan directory config).perform : Action m Unit) := by
  rw [plan, Plan.perform_withSelected]
  refine bind_congr fun place => bind_congr fun manifest => bind_congr fun records => ?_
  cases arguments.output <;> rfl

/-- Every command carries out its plan, on every host. -/
theorem Command.run_eq_perform (command : Command) (directory : String) (config : Config) :
    command.run directory config = ((command.plan directory config).perform : Action m Unit) := by
  cases command with
  | extract arguments => exact arguments.run_eq_perform directory config
  | sections arguments => exact arguments.run_eq_perform directory config
  | envFile arguments => exact arguments.run_eq_perform directory config

end Hosts

end EnvSpec
