import EnvSpec.Entries

/-!
# Nodes of a manifest

A manifest is a tree of tables whose entries keep the order of declaration. Strings are kept, and of
any other value only its kind. A table remembers whether it was written between braces: such a
table with nothing but the strings `version` and `channel` describes one dependency, while a table
with a header of its own is a section whatever its keys are called.
-/
namespace EnvSpec

/-- What a value that is neither a string nor a table was written as. -/
inductive ScalarKind where
  | number | boolean | null | array | integer | float | datetime | arrayOfTables
deriving Repr, DecidableEq

def ScalarKind.name : ScalarKind → String
  | number => "number"
  | boolean => "boolean"
  | null => "null"
  | array => "array"
  | integer => "integer"
  | float => "float"
  | datetime => "datetime"
  | arrayOfTables => "array of tables"

/-- A table over nodes of type `α`: its entries, and whether it was written between braces. -/
structure TableOf (α : Type) where
  inline : Bool
  entries : List (String × α)
deriving Repr

inductive Node where
  | table (table : TableOf Node)
  | string (text : String)
  | other (kind : ScalarKind)
deriving Repr

abbrev Table := TableOf Node

/-- What a node is called in a message. -/
inductive NodeKind where
  | section
  | leaf
  | entry
  | string
  | scalar (kind : ScalarKind)
deriving Repr, DecidableEq

def NodeKind.describe : NodeKind → String
  | .section => "nested mapping"
  | .leaf => "leaf mapping"
  | .entry => "dependency entry"
  | .string => "string value"
  | .scalar kind => s!"{kind.name} value"

/-- The keys that a table describing one dependency may have. -/
def entryKeys : List String := ["version", "channel"]

namespace Node

def asTable? : Node → Option Table
  | .table t => some t
  | _ => none

def asString? : Node → Option String
  | .string s => some s
  | _ => none

end Node

namespace TableOf

def empty (inline : Bool) : Table := ⟨inline, []⟩

def get? (t : Table) (key : String) : Option Node := Entries.get? t.entries key

def insert (t : Table) (key : String) (node : Node) : Table :=
  { t with entries := Entries.insert t.entries key node }

def keys (t : Table) : List String := Entries.keys t.entries

def size (t : Table) : Nat := t.entries.length

def isEmpty (t : Table) : Bool := t.entries.isEmpty

theorem get?_insert (t : Table) (key other : String) (node : Node) :
    (t.insert key node).get? other = if other = key then some node else t.get? other :=
  Entries.get?_insert t.entries key other node

theorem keys_insert (t : Table) (key : String) (node : Node) :
    (t.insert key node).keys = if key ∈ t.keys then t.keys else t.keys ++ [key] :=
  Entries.keys_insert t.entries key node

/-- A table that describes one dependency. -/
def isDependency (t : Table) : Bool :=
  t.inline && !t.isEmpty &&
    t.entries.all fun e => entryKeys.contains e.1 && e.2.asString?.isSome

theorem isDependency_iff {t : Table} : t.isDependency = true ↔ t.inline = true ∧ t.entries ≠ [] ∧
    ∀ e ∈ t.entries, e.1 ∈ entryKeys ∧ ∃ text, e.2 = .string text := by
  have hstring (node : Node) : node.asString?.isSome = true ↔ ∃ text, node = .string text := by
    cases node <;> simp [Node.asString?]
  simp only [isDependency, isEmpty, Bool.and_eq_true, Bool.not_eq_true', List.isEmpty_eq_false_iff,
    List.all_eq_true, List.contains_iff_mem, hstring, and_assoc, ne_eq]

end TableOf

/-- A version string, or a table that describes one dependency. -/
def Node.isDependency : Node → Bool
  | .string _ => true
  | .table t => t.isDependency
  | .other _ => false

/-- A table whose every entry is one dependency. The empty table is a leaf. -/
def TableOf.isLeaf (t : Table) : Bool := t.entries.all fun e => e.2.isDependency

def Node.kind : Node → NodeKind
  | .table t => if t.isLeaf then .leaf else .section
  | .string _ => .string
  | .other kind => .scalar kind

end EnvSpec
