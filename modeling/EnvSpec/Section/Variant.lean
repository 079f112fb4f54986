import EnvSpec.Section.Path
import EnvSpec.Text.LetterCase

/-!
# Hardware variants

A project keeps one dependency section per kind of hardware below a common base section. Selecting
a variant is appending the name of its section to the base.
-/
namespace EnvSpec

inductive Variant where
  | cpu | gpu
deriving Repr, DecidableEq

namespace Variant

def name : Variant → String
  | cpu => "cpu"
  | gpu => "gpu"

def sectionName : Variant → String
  | cpu => "cpu-dependencies"
  | gpu => "gpu-dependencies"

def parse (word : String) : Except UnknownWord Variant :=
  match Text.lower word with
  | "cpu" => .ok cpu
  | "gpu" | "cuda" => .ok gpu
  | _ => .error ⟨.variant, word⟩

end Variant

/-- A base section, and the variant whose section below it is meant, if any. -/
structure Selection where
  base : String
  variant : Option Variant
deriving Repr, DecidableEq

def Selection.path (s : Selection) : Except ManifestError SectionPath := do
  let base ← SectionPath.parse s.base
  match s.variant with
  | some variant => base.child variant.sectionName
  | none => return base

end EnvSpec
