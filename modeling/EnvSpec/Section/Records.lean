import EnvSpec.Record.Basic
import EnvSpec.Requirement.Line
import EnvSpec.Section.Leaf

/-!
# The records of a section

The dependencies of a section are the records of its entries in the order of declaration. One bad
entry fails the whole section, and the first one is reported.
-/
namespace EnvSpec

/-- The record of an entry of the section at `path`. -/
def Record.ofSectionEntry (path name : String) (node : Node) : Except ManifestError Record :=
  (Record.ofEntry name node).mapError (ManifestError.badEntry path name)

namespace Manifest

def records (m : Manifest) (path : SectionPath) : Except ManifestError (List Record) := do
  let leaf ← m.leafAt path
  leaf.entries.mapM fun e => Record.ofSectionEntry path.text e.1 e.2

/-- The records of the section that a text names. -/
def recordsAt (m : Manifest) (path : String) : Except ManifestError (List Record) := do
  m.records (← SectionPath.parse path)

/-- The requirement lines of the section that a text names. -/
def requirementsAt (m : Manifest) (path : String) (target : Target) :
    Except ManifestError (List String) :=
  return (← m.recordsAt path).map (Record.line target)

end Manifest

end EnvSpec
