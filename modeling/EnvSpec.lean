import EnvSpec.Main
import EnvSpec.Proofs.Manifest.Tree
import EnvSpec.Proofs.Manifest.Insertions
import EnvSpec.Proofs.Section.Walk
import EnvSpec.Proofs.Section.Listing
import EnvSpec.Proofs.Constraint.Written
import EnvSpec.Proofs.Requirement.Conda
import EnvSpec.Proofs.Version.Release
import EnvSpec.Proofs.Constraint.Meaning
import EnvSpec.Proofs.Requirement.Pip
import EnvSpec.Proofs.Section.Extraction
import EnvSpec.Proofs.Requirement.Lines
import EnvSpec.Proofs.Environment.Batches
import EnvSpec.Proofs.Section.Growth
import EnvSpec.Proofs.Environment.PipSpecs
import EnvSpec.Proofs.Section.Braces
import EnvSpec.Proofs.Command.Agreement
import EnvSpec.Proofs.Constraint.Grammar
import EnvSpec.Proofs.Command.Variants
import EnvSpec.Proofs.Command.Atomic
import EnvSpec.Proofs.Text.Legible
import EnvSpec.Proofs.Yaml.Scalar
import EnvSpec.Proofs.Environment.Document
import EnvSpec.Proofs.Constraint.Printed
import EnvSpec.Proofs.Version.Semantic
import EnvSpec.Proofs.Requirement.Normal
import EnvSpec.Proofs.Version.Padding
import EnvSpec.Proofs.Section.Dotted
import EnvSpec.Proofs.Requirement.Spacing
import EnvSpec.Proofs.Section.SharedNames
import EnvSpec.Proofs.Command.Settings
import EnvSpec.Proofs.Section.Strings
