import EnvSpec.Command.Run
import EnvSpec.Proofs.Section.Paths

/-!
# Three ways to name the section of a variant

The section of a variant is named by its base and the variant, by one dotted path, or by the variant
alone where the base is configured. Extraction does the same in all three cases: on every host it is
the same program, so there is no outcome and no effect in which they could differ.
-/
namespace EnvSpec

namespace Config

variable {config : Config} {base : String}

/-- Base and variant mean the path that stands for both. -/
theorem sectionPath_variant {p : SectionPath} (h : SectionPath.parse base = .ok p) (v : Variant) :
    config.sectionPath (some base) (some v) =
      config.sectionPath (some (base ++ "." ++ v.sectionName)) none :=
  congrArg (·.mapError Failure.manifest) (Selection.path_some h v)

/-- A variant without a path means the one below the configured base. -/
theorem sectionPath_configured (h : config.extract.base = base) (v : Variant) :
    config.sectionPath none (some v) = config.sectionPath (some base) (some v) := by
  subst h
  rfl

end Config

namespace ExtractArguments

/-- Extraction depends on path and variant through the section that they name. -/
theorem run_congr {m : Type → Type} [Monad m] [Host m] (arguments : ExtractArguments)
    (directory : String) {config : Config} {path path' : Option String}
    {variant variant' : Option Variant}
    (h : config.sectionPath path variant = config.sectionPath path' variant') :
    ({ arguments with path, variant }.run directory config : Action m Unit) =
      { arguments with path := path', variant := variant' }.run directory config := by
  unfold run
  rw [h]

/-- Selecting a variant is nothing but building a path. With a path as base, the base and the
variant name the section that the dotted path of both names, and so does the variant alone where
this base is configured. The section is one segment below the base, and extraction is the same
program. -/
theorem run_variant {m : Type → Type} [Monad m] [Host m] (arguments : ExtractArguments)
    (directory : String) (config : Config) (v : Variant) {base : String} {p : SectionPath}
    (hbase : SectionPath.parse base = .ok p) :
    let named := { arguments with path := some base, variant := some v }
    let dotted :=
      { arguments with path := some (base ++ "." ++ v.sectionName), variant := none }
    let configured := { arguments with path := none, variant := some v }
    (named.run directory config : Action m Unit) = dotted.run directory config ∧
    (config.extract.base = base →
      (configured.run directory config : Action m Unit) = dotted.run directory config) ∧
    ∃ place, config.sectionPath (some base) (some v) = .ok place ∧
      place.segments = p.segments ++ [v.sectionName] := by
  intro named dotted configured
  have hdotted : config.sectionPath (some base) (some v) = _ := Config.sectionPath_variant hbase v
  refine ⟨arguments.run_congr directory hdotted, fun hconfigured => ?_, ?_⟩
  · have hpath := Config.sectionPath_configured hconfigured v
    exact arguments.run_congr directory (hpath.trans hdotted)
  · obtain ⟨place, hplace, hsegments⟩ := p.exists_child_sectionName v
    refine ⟨place, ?_, hsegments⟩
    show (Selection.path ⟨base, some v⟩).mapError Failure.manifest = .ok place
    rw [Selection.path_child hbase, hplace]
    rfl

def torchBase : SectionPath := ⟨"tool.torch", by decide⟩

theorem run_variant_configured_base :
    let config : Config := { extract := { base := "tool.torch" } }
    let arguments : ExtractArguments := { channel := .only .pip }
    SectionPath.parse "tool.torch" = .ok torchBase ∧ config.extract.base = "tool.torch" ∧
    (({ arguments with variant := some .gpu }.run "/work" config : Action (StateM Machine) Unit) =
      { arguments with path := some "tool.torch.gpu-dependencies" }.run "/work" config) ∧
    ∃ place, config.sectionPath (some "tool.torch") (some .gpu) = .ok place ∧
      place.segments = ["tool", "torch", "gpu-dependencies"] := by
  intro config arguments
  have hbase : SectionPath.parse "tool.torch" = .ok torchBase :=
    SectionPath.parse_eq_ok_iff.mpr rfl
  obtain ⟨-, hconfigured, hplace⟩ :=
    run_variant (m := StateM Machine) arguments "/work" config .gpu hbase
  exact ⟨hbase, rfl, hconfigured rfl, hplace⟩

end ExtractArguments

end EnvSpec
