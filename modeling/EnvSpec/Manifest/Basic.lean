import EnvSpec.Manifest.Node
import EnvSpec.Text.Pieces

/-!
# Manifests

A manifest is its root table. Two questions are asked of it by dotted names: the string under a
dotted key, and the names of all sections that hold dependencies, in the order of declaration.
The search for sections stops at leaves, since nothing below a leaf is a section, and leaves out
empty ones.
-/
namespace EnvSpec

structure Manifest where
  root : Table
deriving Repr

/-- The node under a list of keys, one table per key. -/
def TableOf.descend? (t : Table) : List String → Option Node
  | [] => some (.table t)
  | [key] => t.get? key
  | key :: rest => do (← (← t.get? key).asTable?).descend? rest

/-- Below a key that holds a table, the search goes on in that table. -/
theorem TableOf.descend?_cons_of_table {t next : Table} {key : String}
    (h : t.get? key = some (.table next)) (rest : List String) :
    t.descend? (key :: rest) = next.descend? rest := by
  cases rest with
  | nil => exact h
  | cons _ _ => simp [descend?, h, Node.asTable?]

theorem TableOf.descend?_cons_of_none {t : Table} {key : String} (h : t.get? key = none)
    (rest : List String) : t.descend? (key :: rest) = none := by
  cases rest with
  | nil => exact h
  | cons _ _ => simp [descend?, h]

theorem TableOf.descend?_cons_of_scalar {t : Table} {key : String} {node : Node}
    (h : t.get? key = some node) (hn : node.asTable? = none) {rest : List String}
    (hr : rest ≠ []) : t.descend? (key :: rest) = none := by
  cases rest with
  | nil => exact absurd rfl hr
  | cons _ _ => simp [descend?, h, hn]

/-- The string under a dotted key. A piece of the key may be empty if a table has the empty key. -/
def Manifest.string? (m : Manifest) (dotted : String) : Option String := do
  (← m.root.descend? (Text.pieces '.' dotted)).asString?

mutual

/-- The non-empty leaves at and below a node that stands at `name`. -/
def Node.sectionsAt (name : String) : Node → List String
  | .table ⟨inline, entries⟩ =>
    let t : Table := ⟨inline, entries⟩
    if t.isLeaf then if t.isEmpty then [] else [name]
    else sectionsBelow name entries
  | .string _ => []
  | .other _ => []

/-- The non-empty leaves at and below the entries of a table that stands at `name`. -/
def sectionsBelow (name : String) : Entries String Node → List String
  | [] => []
  | (key, node) :: rest => node.sectionsAt (name ++ "." ++ key) ++ sectionsBelow name rest

end

/-- The dotted names of the sections of a manifest that hold dependencies. The root itself is not
a section, whatever it holds. -/
def Manifest.sections (m : Manifest) : List String :=
  m.root.entries.flatMap fun e => e.2.sectionsAt e.1

end EnvSpec
