import EnvSpec.Proofs.Command.Machine
import EnvSpec.Proofs.Environment.Batches

/-!
# Environments and extraction

The environment of a variant can be put together from two extractions of the same section: what
extraction prints of the standard channel for conda, and what it prints of the pip channel for pip.
Both commands select the same records of the same manifest, so what stops one stops the other.
-/
namespace EnvSpec

theorem ChannelChoice.filter_only (channel : Channel) (records : List Record) :
    records.filter (fun r => (ChannelChoice.only channel).admits r.channel) =
      records.filter (·.channel = channel) := by
  refine List.filter_congr fun r _ => ?_
  simp only [admits, eq_comm]

namespace EnvFileArguments

/-- The extraction of the section that an environment is made from. -/
def extraction (arguments : EnvFileArguments) (channel : ChannelChoice) (target : Option Target) :
    ExtractArguments :=
  { path := arguments.base, variant := some arguments.variant, target, channel,
    manifest := arguments.manifest }

variable (arguments : EnvFileArguments) (files : FileTree) (directory : String) (config : Config)

/-- A section has no environment exactly if nothing can be extracted from it. -/
theorem text_eq_error_iff (channel : ChannelChoice) (target : Option Target) (failure : Failure) :
    (Command.envFile arguments).text files directory config = .error failure ↔
      (Command.extract (arguments.extraction channel target)).text files directory config =
        .error failure := by
  unfold Command.text environment ExtractArguments.chosen extraction
  dsimp only
  cases config.selected files directory arguments.base (some arguments.variant)
    arguments.manifest with
  | error _ => simp only [Except.map, Except.error.injEq]
  | ok _ => simp only [Except.map, reduceCtorEq]

/-- An environment is assembled from the lines of two extractions. -/
theorem exists_chosen_of_environment {e : Environment}
    (h : arguments.environment files directory config = .ok e) :
    ∃ standard pip,
      (arguments.extraction (.only .standard) (some .conda)).chosen files directory config =
        .ok standard ∧
      (arguments.extraction (.only .pip) (some .pip)).chosen files directory config = .ok pip ∧
      ((∀ r ∈ standard, r.PlainName) →
        e.dependencies = Environment.assembled (standard.map (Record.line .conda))
          (Environment.requiredBeside standard) (pip.map (Record.line .pip))) := by
  unfold environment at h
  unfold ExtractArguments.chosen extraction
  dsimp only
  cases hs : config.selected files directory arguments.base (some arguments.variant)
      arguments.manifest with
  | error failure =>
    rw [hs] at h
    cases h
  | ok selected =>
    rw [hs] at h
    cases h
    refine ⟨_, _, rfl, rfl, fun hplain => ?_⟩
    dsimp only at hplain ⊢
    have hstandard := (List.nil_append _).trans
      (ChannelChoice.filter_only .standard selected.2).symm
    rw [ChannelChoice.filter_only .pip]
    exact Environment.extend_specs hstandard hplain

/-- An environment that is printed agrees with what extraction prints of the same section. It fails
exactly where extraction does and in the same way, for any channel and target. Otherwise its
dependencies are assembled from the very lines that the two extractions, by channel, print, each
ended by a line break. -/
theorem run_agrees_with_extraction (machine : Machine) (hprinted : arguments.output = none) :
    (∀ (channel : ChannelChoice) (target : Option Target) (failure : Failure),
      (machine.perform (arguments.run directory config)).1 = .error failure ↔
        (machine.perform ((arguments.extraction channel target).run directory config)).1 =
          .error failure) ∧
    ((machine.perform (arguments.run directory config)).1 = .ok () →
      ∃ (standard pip : List Record) (e : Environment),
        let specs := standard.map (Record.line .conda)
        let lines := pip.map (Record.line .pip)
        (arguments.extraction (.only .standard) (some .conda)).chosen machine.files directory
          config = .ok standard ∧
        machine.perform ((arguments.extraction (.only .standard) (some .conda)).run directory
          config) = (.ok (), machine.printed (String.join (specs.map (· ++ "\n")))) ∧
        (arguments.extraction (.only .pip) (some .pip)).chosen machine.files directory config =
          .ok pip ∧
        machine.perform ((arguments.extraction (.only .pip) (some .pip)).run directory config) =
          (.ok (), machine.printed (String.join (lines.map (· ++ "\n")))) ∧
        arguments.environment machine.files directory config = .ok e ∧
        machine.perform (arguments.run directory config) = (.ok (), machine.printed e.yaml) ∧
        ((∀ r ∈ standard, r.PlainName) →
          e.dependencies =
            Environment.assembled specs (Environment.requiredBeside standard) lines)) := by
  have hfails := fun (command : Command) (hcommand : command.output? = none) failure =>
    machine.perform_run_eq_error_iff command directory config failure hcommand
  constructor
  · intro channel target failure
    exact (hfails (.envFile arguments) hprinted failure).trans
      ((arguments.text_eq_error_iff machine.files directory config channel target failure).trans
        (hfails (.extract (arguments.extraction channel target)) rfl failure).symm)
  · intro hok
    have hrun : machine.perform (arguments.run directory config) = _ :=
      machine.perform_run (.envFile arguments) directory config hprinted
    rw [hrun, Command.text] at hok
    cases he : arguments.environment machine.files directory config with
    | error failure =>
      rw [he] at hok
      cases hok
    | ok e =>
      rw [Command.text, he] at hrun
      obtain ⟨standard, pip, hstandard, hpip, hassembled⟩ :=
        arguments.exists_chosen_of_environment machine.files directory config he
      exact ⟨standard, pip, e, hstandard, machine.perform_extract hstandard, hpip,
        machine.perform_extract hpip, rfl, hrun, hassembled⟩

/-- A manifest with one record of either channel. -/
def mixedText : String :=
  "\x7b\"conda\": \x7b\"cpu-dependencies\": \x7b\"numpy\": \"^1.16\", " ++
    "\"tvm\": \x7b\"version\": \"0.7\", \"channel\": \"pip\"\x7d\x7d\x7d\x7d"

def mixedManifest : Manifest :=
  let tvm : Table := ⟨true, [("version", .string "0.7"), ("channel", .string "pip")]⟩
  let cpu : Table := ⟨true, [("numpy", .string "^1.16"), ("tvm", .table tvm)]⟩
  let conda : Table := ⟨true, [("cpu-dependencies", .table cpu)]⟩
  ⟨⟨true, [("conda", .table conda)]⟩⟩

def mixedMachine : Machine where
  files := [(["work"], .directory), (["work", "package.json"], .file mixedText.toUTF8)]
  output := ""

def mixedSection : SectionPath := ⟨"conda.cpu-dependencies", by decide⟩

def mixedNumpy : Record := ⟨"numpy", ⟨"^1.16", [⟨.caret, "1.16"⟩]⟩, .standard⟩

def mixedTvm : Record := ⟨"tvm", ⟨"0.7", [⟨.bare, "0.7"⟩]⟩, .pip⟩

def mixedArguments : EnvFileArguments :=
  { base := some "conda", variant := .cpu, manifest := some "package.json" }

theorem selected_mixed :
    ({} : Config).selected mixedMachine.files "/work" (some "conda") (some .cpu)
      (some "package.json") = .ok (mixedManifest, [mixedNumpy, mixedTvm]) := by
  have hread : mixedMachine.files.read "/work/package.json" = .ok mixedText.toUTF8 := rfl
  have hformat : Format.ofPath "/work/package.json" = .ok .json := rfl
  have hparse : Manifest.parse .json mixedText = .ok mixedManifest := rfl
  have hplace : ({} : Config).sectionPath (some "conda") (some .cpu) = .ok mixedSection := rfl
  have hrecords : mixedManifest.records mixedSection = .ok [mixedNumpy, mixedTvm] := rfl
  exact Config.selected_eq_ok hplace ((FileTree.manifest_of_read hread hformat).trans hparse)
    hrecords

theorem environment_mixed :
    mixedArguments.environment mixedMachine.files "/work" {} =
      .ok ((Environment.new "environment" []).add [mixedNumpy, mixedTvm]) :=
  (congrArg _ selected_mixed).trans rfl

theorem run_agrees_with_extraction_mixed :
    mixedArguments.output = none ∧
    (∀ (channel : ChannelChoice) (target : Option Target) (failure : Failure),
      (mixedMachine.perform (mixedArguments.run "/work" {})).1 = .error failure ↔
        (mixedMachine.perform ((mixedArguments.extraction channel target).run "/work" {})).1 =
          .error failure) ∧
    (mixedMachine.perform (mixedArguments.run "/work" {})).1 = .ok () ∧
    ∃ e : Environment,
      mixedMachine.perform (mixedArguments.run "/work" {}) =
        (.ok (), mixedMachine.printed e.yaml) ∧
      e.dependencies = [.spec "numpy=1.16", .spec "pip", .pip ["tvm==0.7"]] := by
  obtain ⟨hfail, hagree⟩ := run_agrees_with_extraction mixedArguments "/work" {} mixedMachine rfl
  have hok : (mixedMachine.perform (mixedArguments.run "/work" {})).1 = .ok () := by
    have hrun : mixedMachine.perform (mixedArguments.run "/work" {}) = _ :=
      mixedMachine.perform_run (.envFile mixedArguments) "/work" {} rfl
    rw [hrun, Command.text, environment_mixed]
    rfl
  obtain ⟨standard, pip, e, hstandard, -, hpip, -, -, hprinted, hassembled⟩ := hagree hok
  have hnumpy : Except.ok [mixedNumpy] = Except.ok standard :=
    ((congrArg _ selected_mixed).trans rfl).symm.trans hstandard
  have htvm : Except.ok [mixedTvm] = Except.ok pip :=
    ((congrArg _ selected_mixed).trans rfl).symm.trans hpip
  obtain rfl := Except.ok.inj hnumpy
  obtain rfl := Except.ok.inj htvm
  refine ⟨rfl, hfail, hok, e, hprinted, ?_⟩
  rw [hassembled (by decide)]
  decide

end EnvFileArguments

end EnvSpec
