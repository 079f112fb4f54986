import EnvSpec.Manifest.Basic
import EnvSpec.Section.Path

/-!
# The leaf that a section path names

A path is followed from the root, one key per segment. It has to end at a leaf, and dependencies
live only in leaves, so the walk is refused as soon as it would pass through one. A table between
braces below a leaf is a dependency and no section. An empty table may be passed through: it holds
no dependencies, and the next key is simply missing.
-/
namespace EnvSpec

/-- Why a walk stopped at a segment. -/
inductive Obstacle where
  | missing
  | found (kind : NodeKind)
deriving Repr, DecidableEq

namespace TableOf

/-- Enters the table under `key`, which is not the last segment of the path. -/
def passThrough (t : Table) (key : String) : Except Obstacle Table :=
  match t.get? key with
  | none => .error .missing
  | some (.table next) =>
    if t.isLeaf && next.isDependency then .error (.found .entry)
    else if next.isLeaf && !next.isEmpty then .error (.found .leaf)
    else .ok next
  | some node => .error (.found node.kind)

/-- Enters the table under `key`, the last segment of the path. -/
def arrive (t : Table) (key : String) : Except Obstacle Table :=
  match t.get? key with
  | none => .error .missing
  | some (.table next) =>
    if t.isLeaf && next.isDependency then .error (.found .entry)
    else if next.isLeaf then .ok next
    else .error (.found .section)
  | some node => .error (.found node.kind)

/-- Follows segments down to a leaf; a failure names the segment at which the walk stopped. -/
def walk (t : Table) : List String → Except (String × Obstacle) Table
  | [] => .ok t
  | [key] => (t.arrive key).mapError (key, ·)
  | key :: rest => do
    let next ← (t.passThrough key).mapError (key, ·)
    next.walk rest

end TableOf

/-- The leaf at a path. -/
def Manifest.leafAt (m : Manifest) (path : SectionPath) : Except ManifestError Table :=
  match m.root.walk path.segments with
  | .ok leaf => .ok leaf
  | .error (segment, .missing) => .error (.missingKey path.text segment)
  | .error (segment, .found kind) => .error (.noDependencies path.text segment kind)

end EnvSpec
