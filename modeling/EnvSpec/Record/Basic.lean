import EnvSpec.Constraint.Basic
import EnvSpec.Record.Channel
import EnvSpec.Text.Blank

/-!
# Dependency records

A record is one dependency: a package name, a version constraint and the channel it comes from.
It is read from an entry of a section, either a version string or a table between braces with the
keys `version` and `channel`. The name is checked first, then the channel, then the constraint.
-/
namespace EnvSpec

structure Record where
  name : String
  constraint : Constraint
  channel : Channel
deriving Repr, DecidableEq

namespace Record

/-- The version text and the channel that an entry of a section gives. A table without a version
leaves the version open; without a channel it stands for the standard one. -/
def versionAndChannel (node : Node) : Except EntryFault (String × Channel) :=
  match node with
  | .string version => .ok (version, .standard)
  | .table t =>
    if t.isDependency then
      let version := ((t.get? "version").bind Node.asString?).getD ""
      match (t.get? "channel").bind Node.asString? with
      | none => .ok (version, .standard)
      | some word =>
        match Channel.parse word with
        | .ok channel => .ok (version, channel)
        | .error unknown => .error (.unknownChannel unknown)
    else .error (.notAVersion node.kind)
  | .other _ => .error (.notAVersion node.kind)

/-- The record that an entry describes. -/
def ofEntry (name : String) (node : Node) : Except EntryFault Record :=
  if Text.isAllBlank name then .error .blankName
  else do
    let (version, channel) ← versionAndChannel node
    match Constraint.parse? version with
    | some constraint => return ⟨name, constraint, channel⟩
    | none => throw (.badConstraint version)

end Record

end EnvSpec
