import EnvSpec.Proofs.Command.Agreement
import EnvSpec.Proofs.Files.Writing

/-!
# Commands are atomic

A console is a machine whose standard output can fail, after any part of a text. On it a command
either ends well, fails, or is cut short by standard output. What a command may leave behind follows
from the one step with which its plan ends. A write that fails is taken to leave the files as they
were, as it does on every machine here.
-/
namespace EnvSpec

/-- What standard output does with a text: it takes the whole, or a part before it fails. -/
inductive Intake where
  | whole
  | part (taken : String) (fault : FileFault)

/-- Standard output: what it does with a text after what was printed before. -/
abbrev Outlet := (printed text : String) → Intake

/-- Standard output that never fails. -/
def Outlet.sound : Outlet := fun _ _ => .whole

def Console (_outlet : Outlet) : Type → Type := ExceptT FileFault (StateM Machine)

namespace Console

variable {outlet : Outlet}

instance : Monad (Console outlet) :=
  (inferInstance : Monad (ExceptT FileFault (StateM Machine)))

instance : LawfulMonad (Console outlet) :=
  (inferInstance : LawfulMonad (ExceptT FileFault (StateM Machine)))

def print (outlet : Outlet) (text : String) : Console outlet Unit :=
  ExceptT.mk fun machine =>
    match outlet machine.output text with
    | .whole => (.ok (), machine.printed text)
    | .part taken fault => (.error fault, machine.printed taken)

instance : Host (Console outlet) where
  bytes path := ExceptT.lift (m := StateM Machine) (Host.bytes path)
  isFile path := ExceptT.lift (m := StateM Machine) (Host.isFile path)
  write path content := ExceptT.lift (m := StateM Machine) (Host.write path content)
  print := print outlet

/-- What an action gives on a machine, unless standard output cuts it short, and the machine after
it. -/
def run {α : Type} (machine : Machine) (action : Console outlet α) : Except FileFault α × Machine :=
  Id.run ((ExceptT.run (m := StateM Machine) action).run machine)

theorem run_map {α β : Type} (machine : Machine) (f : α → β) (action : Console outlet α) :
    run machine (f <$> action) = ((run machine action).1.map f, (run machine action).2) := by
  unfold run ExceptT.run StateT.run Id.run
  simp only [Functor.map, ExceptT.map, ExceptT.mk, bind, StateT.bind]
  rcases action machine with ⟨_ | _, after⟩ <;> rfl

theorem run_print (machine : Machine) (text : String) :
    run machine (print outlet text) =
      match outlet machine.output text with
      | .whole => (.ok (), machine.printed text)
      | .part taken fault => (.error fault, machine.printed taken) := rfl

theorem run_write (machine : Machine) (path content : String) :
    run machine (Host.write path content : Console outlet _) =
      (.ok (machine.write path content).1, (machine.write path content).2) := rfl

end Console

/-- How a run on a console ends. -/
inductive Ending where
  | done
  | failed (failure : Failure)
  | cutShort (fault : FileFault)

namespace Machine

/-- Runs an action on the console that a machine and its standard output are. -/
def performOn (outlet : Outlet) (machine : Machine) (action : Action (Console outlet) Unit) :
    Ending × Machine :=
  match Console.run machine action.run with
  | (.ok (.ok _), after) => (.done, after)
  | (.ok (.error failure), after) => (.failed failure, after)
  | (.error fault, after) => (.cutShort fault, after)

end Machine

/-- What a step does to a console. -/
def Step.effect (outlet : Outlet) (machine : Machine) : Step → Ending × Machine
  | fail failure => (.failed failure, machine)
  | print text =>
    match outlet machine.output text with
    | .whole => (.done, machine.printed text)
    | .part taken fault => (.cutShort fault, machine.printed taken)
  | write path text =>
    match machine.files.write path text.toUTF8 with
    | .ok files => (.done, { machine with files })
    | .error fault => (.failed (.output fault), machine)

namespace Step

theorem effect_print (outlet : Outlet) (machine : Machine) (text : String) :
    (print text).effect outlet machine =
      match outlet machine.output text with
      | .whole => (.done, machine.printed text)
      | .part taken fault => (.cutShort fault, machine.printed taken) := rfl

theorem effect_write (outlet : Outlet) (machine : Machine) (path text : String) :
    (write path text).effect outlet machine =
      match machine.files.write path text.toUTF8 with
      | .ok files => (.done, { machine with files })
      | .error fault => (.failed (.output fault), machine) := rfl

end Step

theorem Step.performOn_perform (outlet : Outlet) (machine : Machine) (step : Step) :
    machine.performOn outlet step.perform = step.effect outlet machine := by
  cases step with
  | fail failure => rfl
  | print text =>
    have hrun : (Action.print text : Action (Console outlet) Unit).run =
        Except.ok <$> Console.print outlet text := ExceptT.run_lift _
    rw [Machine.performOn, perform, hrun, Console.run_map, Console.run_print,
      effect_print]
    cases outlet machine.output text <;> rfl
  | write path text =>
    have hrun : (Action.write path text : Action (Console outlet) Unit).run =
        (·.mapError Failure.output) <$> Host.write path text := (map_eq_pure_bind _ _).symm
    rw [Machine.performOn, perform, hrun, Console.run_map, Console.run_write,
      effect_write, Machine.write]
    cases machine.files.write path text.toUTF8 <;> rfl

/-- What a plan does to a console is what its last step does. -/
theorem Plan.performOn_perform (outlet : Outlet) (machine : Machine) (plan : Plan) :
    machine.performOn outlet plan.perform = (plan.ending machine.files).effect outlet machine := by
  rw [observe_perform machine.files (machine.performOn outlet) (fun _ _ => rfl)]
  exact (plan.ending machine.files).performOn_perform outlet machine

namespace Command

/-- The same command, without a path to write to. -/
def printing : Command → Command
  | .extract arguments => .extract arguments
  | .sections arguments => .sections arguments
  | .envFile arguments => .envFile { arguments with output := none }

theorem text_printing (command : Command) : command.printing.text = command.text := by
  cases command <;> rfl

theorem output?_printing (command : Command) : command.printing.output? = none := by
  cases command <;> rfl

/-- On a console, a command fails without an effect or delivers its text. -/
theorem performOn_run (outlet : Outlet) (machine : Machine) (command : Command)
    (directory : String) (config : Config) :
    machine.performOn outlet (command.run directory config) =
      match command.text machine.files directory config with
      | .ok text =>
        (Step.deliver (command.output?.map (Files.join directory)) text).effect outlet machine
      | .error failure => (.failed failure, machine) := by
  rw [command.run_eq_perform, Plan.performOn_perform, ending_plan]
  cases command.text machine.files directory config <;> rfl

end Command

namespace Step

section Effects
variable {outlet : Outlet} {machine : Machine} {ran : Ending × Machine}

/-- A step that fails leaves the machine as it was. -/
theorem unchanged_of_failed {step : Step} (hran : step.effect outlet machine = ran)
    {failure : Failure} (h : ran.1 = .failed failure) : ran.2 = machine := by
  cases step with
  | fail _ =>
    subst hran
    rfl
  | print text =>
    rw [effect_print] at hran
    cases hintake : outlet machine.output text <;> rw [hintake] at hran <;> subst hran <;> cases h
  | write path text =>
    rw [effect_write] at hran
    cases hwrite : machine.files.write path text.toUTF8 with
    | ok files =>
      rw [hwrite] at hran
      subst hran
      cases h
    | error fault =>
      rw [hwrite] at hran
      subst hran
      rfl

/-- Printing changes no file, however it ends. -/
theorem files_of_print {text : String} (hran : (print text).effect outlet machine = ran) :
    ran.2.files = machine.files := by
  rw [effect_print] at hran
  cases hintake : outlet machine.output text <;> rw [hintake] at hran <;> subst hran <;> rfl

/-- A write that succeeds prints nothing, and changes the files as writing does. -/
theorem files_of_write {path text : String}
    (hran : (write path text).effect outlet machine = ran) (h : ran.1 = .done) :
    ran.2.output = machine.output ∧
      machine.files.write path text.toUTF8 = .ok ran.2.files := by
  rw [effect_write] at hran
  cases hwrite : machine.files.write path text.toUTF8 with
  | ok files =>
    rw [hwrite] at hran
    subst hran
    exact ⟨rfl, rfl⟩
  | error fault =>
    rw [hwrite] at hran
    subst hran
    cases h

end Effects

end Step

namespace Command

/-- Commands are atomic. Where a command fails, nothing was printed and no file was changed. A
command that has no path to write to changes no file, even if standard output fails. A command that
has one and succeeds prints nothing, and of all files changes the one at its path, whose content is
then the text that the same command prints without a path. -/
theorem run_atomic (outlet : Outlet) (machine : Machine) (command : Command) (directory : String)
    (config : Config) :
    let ran := machine.performOn outlet (command.run directory config)
    (∀ failure, ran.1 = .failed failure → ran.2 = machine) ∧
    (command.output? = none → ran.2.files = machine.files) ∧
    (∀ output, command.output? = some output → ran.1 = .done →
      ran.2.output = machine.output ∧
      ∃ text location,
        machine.performOn .sound (command.printing.run directory config) =
          (.done, machine.printed text) ∧
        machine.files.locateNew (Files.join directory output) = .ok location ∧
        ran.2.files.locate (Files.join directory output) = .ok location ∧
        ran.2.files.read (Files.join directory output) = .ok text.toUTF8 ∧
        ∀ here, here ≠ location → ran.2.files.entry? here = machine.files.entry? here) := by
  intro ran
  have hran := performOn_run outlet machine command directory config
  change ran = _ at hran
  clear_value ran
  have hprinting := performOn_run .sound machine command.printing directory config
  rw [text_printing, output?_printing] at hprinting
  cases htext : command.text machine.files directory config with
  | error failure =>
    rw [htext] at hran
    subst hran
    exact ⟨fun _ _ => rfl, fun _ => rfl, fun _ _ hdone => nomatch hdone⟩
  | ok text =>
    rw [htext] at hran hprinting
    dsimp only at hran
    refine ⟨fun failure => Step.unchanged_of_failed hran.symm, fun hnone => ?_,
      fun output houtput hdone => ?_⟩
    · rw [hnone] at hran
      exact Step.files_of_print hran.symm
    · rw [houtput] at hran
      obtain ⟨hsilent, hwrite⟩ := Step.files_of_write hran.symm hdone
      obtain ⟨location, hnew, hlocate, hread, hframe⟩ := FileTree.read_of_write hwrite
      exact ⟨hsilent, text, location, hprinting, hnew, hlocate, hread, hframe⟩

open EnvFileArguments in
/-- An environment is written although standard output fails, and extraction of no section fails. -/
theorem run_atomic_mixed :
    let closed : Outlet := fun _ _ => .part "" (.system "Broken pipe (os error 32)")
    let written : Command := .envFile { mixedArguments with output := some "environment.yml" }
    let ran := mixedMachine.performOn closed (written.run "/work" {})
    let refused := mixedMachine.performOn closed ((Command.extract {}).run "/work" {})
    (written.output? = some "environment.yml" ∧ ran.1 = .done ∧ ran.2.output = "" ∧
      ∃ text : String, ran.2.files.read "/work/environment.yml" = .ok text.toUTF8) ∧
    (refused.1 = .failed .noSection ∧ refused.2 = mixedMachine ∧
      refused.2.files = mixedMachine.files) := by
  intro closed written ran refused
  have htext : written.text mixedMachine.files "/work" {} =
      .ok ((Environment.new "environment" []).add [mixedNumpy, mixedTvm]).yaml :=
    congrArg (Except.map Environment.yaml) environment_mixed
  have hdone : ran.1 = .done := by
    rw [show ran = _ from performOn_run closed mixedMachine written "/work" {}, htext]
    rfl
  have hfailed : refused.1 = .failed .noSection := by
    have hrefused : refused = _ := performOn_run closed mixedMachine (.extract {}) "/work" {}
    rw [hrefused]
    rfl
  obtain ⟨-, -, hwritten⟩ := run_atomic closed mixedMachine written "/work" {}
  obtain ⟨hsilent, text, location, -, -, -, hread, -⟩ := hwritten "environment.yml" rfl hdone
  obtain ⟨hsame, hfiles, -⟩ := run_atomic closed mixedMachine (.extract {}) "/work" {}
  exact ⟨⟨rfl, hdone, hsilent, text, hread⟩, hfailed, hsame .noSection hfailed, hfiles rfl⟩

end Command

end EnvSpec
