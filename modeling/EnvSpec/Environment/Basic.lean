import EnvSpec.Requirement.Line

/-!
# Environment files

An environment has a name, channels and dependencies. Records of the standard channel become specs
of their own, in conda's grammar. Those installed by pip are gathered in one item, in pip's grammar,
and pip itself is required before that item unless a spec already asks for it.
-/
namespace EnvSpec

inductive Dependency where
  | spec (text : String)
  | pip (lines : List String)
deriving Repr, DecidableEq

structure Environment where
  name : String
  channels : List String
  dependencies : List Dependency
deriving Repr, DecidableEq

namespace Dependency

/-- A character that may follow the name of a package in a spec. -/
def startsVersion (c : Char) : Bool := ['=', '<', '>', '!', '~'].contains c

/-- A spec for pip itself, in any version. -/
def asksForPip : Dependency → Bool
  | .spec text =>
    "pip".toList.isPrefixOf text.toList && (text.toList.drop 3).head?.all startsVersion
  | .pip _ => false

/-- Adds lines to the first list of pip requirements, or begins one at the end. -/
def addPipLines (lines : List String) : List Dependency → List Dependency
  | [] => [.pip lines]
  | .pip present :: rest => .pip (present ++ lines) :: rest
  | .spec text :: rest => .spec text :: addPipLines lines rest

/-- Requires pip, if no spec does so yet. -/
def requirePip (dependencies : List Dependency) : List Dependency :=
  if dependencies.any asksForPip then dependencies else dependencies ++ [.spec "pip"]

end Dependency

namespace Environment

def new (name : String) (channels : List String) : Environment := ⟨name, channels, []⟩

/-- The dependencies after a batch of records. -/
def extend (dependencies : List Dependency) (records : List Record) : List Dependency :=
  let standard := records.filter (·.channel = .standard)
  let pip := records.filter (·.channel = .pip)
  let extended := dependencies ++ standard.map fun r => .spec (r.line .conda)
  if pip.isEmpty then extended
  else Dependency.addPipLines (pip.map (Record.line .pip)) (Dependency.requirePip extended)

def add (e : Environment) (records : List Record) : Environment :=
  { e with dependencies := extend e.dependencies records }

end Environment

end EnvSpec
