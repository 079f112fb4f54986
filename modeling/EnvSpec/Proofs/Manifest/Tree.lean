import Mathlib.Data.List.Induction
import EnvSpec.Manifest.Node

/-!
# Properties of every table in a tree

A manifest is as deep as its author likes, so what is assumed of its tables is assumed of all of
them. Distinct keys are no assumption about an author: `insert` gives no other tables.
-/
namespace EnvSpec

theorem Node.sizeOf_lt_of_mem {t : Table} {e : String × Node} (he : e ∈ t.entries) :
    sizeOf e.2 < sizeOf (Node.table t) := by
  have hmem := List.sizeOf_lt_of_mem he
  obtain ⟨_, _⟩ := t
  obtain ⟨_, _⟩ := e
  simp only [Node.table.sizeOf_spec, TableOf.mk.sizeOf_spec, Prod.mk.sizeOf_spec] at hmem ⊢
  omega

/-- Induction over a tree, with the hypothesis for every entry of a table. -/
@[elab_as_elim]
theorem Node.tree_induction {motive : Node → Prop}
    (table : ∀ t : Table, (∀ e ∈ t.entries, motive e.2) → motive (.table t))
    (string : ∀ text, motive (.string text)) (other : ∀ kind, motive (.other kind)) :
    ∀ node, motive node
  | .table t => table t fun e he =>
    have := sizeOf_lt_of_mem he
    tree_induction table string other e.2
  | .string text => string text
  | .other kind => other kind
termination_by node => sizeOf node
decreasing_by assumption

/-- Induction over a tree that only looks at its tables. -/
@[elab_as_elim]
theorem TableOf.tree_induction {motive : Table → Prop}
    (step : ∀ t : Table, (∀ key next, (key, Node.table next) ∈ t.entries → motive next) → motive t)
    (t : Table) : motive t := by
  suffices h : ∀ node, ∀ t, node = Node.table t → motive t from h _ t rfl
  intro node
  induction node using Node.tree_induction with
  | string _ | other _ =>
    intro _ h
    cases h
  | table t ih =>
    intro t' h
    cases h
    exact step t fun _ next he => ih _ he next rfl

/-- All tables at and below a node have the property `P`. -/
inductive Node.Every (P : Table → Prop) : Node → Prop where
  | table {t : Table} (here : P t) (inside : ∀ e ∈ t.entries, e.2.Every P) : Every P (.table t)
  | string (text : String) : Every P (.string text)
  | other (kind : ScalarKind) : Every P (.other kind)

namespace Node

variable {P : Table → Prop}

@[simp]
theorem every_table_iff {t : Table} :
    (Node.table t).Every P ↔ P t ∧ ∀ e ∈ t.entries, e.2.Every P := by
  constructor
  · intro h
    cases h with
    | table here inside => exact ⟨here, inside⟩
  · exact fun ⟨here, inside⟩ => .table here inside

@[simp]
theorem every_string (text : String) : (Node.string text).Every P := .string text

@[simp]
theorem every_other (kind : ScalarKind) : (Node.other kind).Every P := .other kind

theorem Every.of_get? {t : Table} {key : String} {node : Node} (h : (Node.table t).Every P)
    (hg : t.get? key = some node) : node.Every P :=
  (every_table_iff.mp h).2 _ (Entries.mem_of_get? hg)

end Node

namespace TableOf

/-- No key is written twice. -/
def DistinctKeys (t : Table) : Prop := t.keys.Nodup

/-- Every key can stand in a dotted path: it is not empty and has no dot in it. -/
def PlainKeys (t : Table) : Prop := ∀ key ∈ t.keys, key ≠ "" ∧ '.' ∉ key.toList

theorem get?_of_mem {t : Table} (ht : t.DistinctKeys) {e : String × Node} (he : e ∈ t.entries) :
    t.get? e.1 = some e.2 :=
  Entries.get?_of_mem ht he

end TableOf

/-- The tables of a node were filled by `insert`, each from an empty one. -/
inductive Node.Built : Node → Prop where
  | string (text : String) : Built (.string text)
  | other (kind : ScalarKind) : Built (.other kind)
  | empty (inline : Bool) : Built (.table (TableOf.empty inline))
  | insert {t : Table} {node : Node} (key : String) (table : Built (.table t)) (entry : Built node) :
      Built (.table (t.insert key node))

theorem Node.Built.of_entries {inline : Bool} {entries : Entries String Node}
    (hkeys : (Entries.keys entries).Nodup) (hbuilt : ∀ e ∈ entries, e.2.Built) :
    (Node.table ⟨inline, entries⟩).Built := by
  induction entries using List.reverseRecOn with
  | nil => exact .empty inline
  | append_singleton entries e ih =>
    obtain ⟨hkeys, -, hfresh⟩ := List.nodup_append.mp (by simpa [Entries.keys] using hkeys)
    have hins : Entries.insert entries e.1 e.2 = entries ++ [e] :=
      Entries.insert_of_not_mem fun hm => hfresh _ hm _ (List.mem_singleton_self _) rfl
    have hrest := ih hkeys fun e he => hbuilt e (List.mem_append_left _ he)
    have hlast := hbuilt e (List.mem_append_right _ (List.mem_singleton_self _))
    have h := hrest.insert e.1 hlast
    rwa [TableOf.insert, hins] at h

/-- Insertions build exactly the trees that have no key twice in one table. -/
theorem Node.built_iff {node : Node} : node.Built ↔ node.Every TableOf.DistinctKeys := by
  constructor
  · intro h
    induction h with
    | string _ => exact .string _
    | other _ => exact .other _
    | empty _ => simp [TableOf.DistinctKeys, TableOf.empty, TableOf.keys, Entries.keys]
    | insert key _ _ ht hn =>
      rw [every_table_iff] at ht ⊢
      refine ⟨Entries.nodup_keys_insert ht.1 key _, fun e he => ?_⟩
      rcases Entries.mem_insert he with rfl | he
      · exact hn
      · exact ht.2 e he
  · intro h
    induction node using Node.tree_induction with
    | string _ => exact .string _
    | other _ => exact .other _
    | table t ih =>
      obtain ⟨hkeys, hinside⟩ := every_table_iff.mp h
      exact .of_entries hkeys fun e he => ih e he (hinside e he)

end EnvSpec
