import Mathlib.Logic.Relation
import EnvSpec.Proofs.Section.Extraction

/-!
# Sections do not depend on what stands beside them

Whether a table may be entered depends on all of its entries, since a leaf may not be. What is added
beside a section could therefore close the way to it. It does not: a way that is open leads through
tables that are no leaves, a table stays none whatever is added to it, and the keys of the path are
found as before. Nothing is said of additions to the section itself.
-/
namespace EnvSpec

namespace TableOf

theorem get?_insert_self (t : Table) (key : String) (node : Node) :
    (t.insert key node).get? key = some node := by
  rw [get?_insert, if_pos rfl]

/-- A new key hides no other. -/
theorem get?_insert_of_get? {t : Table} {key fresh : String} {found : Node}
    (hfresh : fresh ∉ t.keys) (hg : t.get? key = some found) (node : Node) :
    (t.insert fresh node).get? key = some found := by
  have hne : key ≠ fresh := by
    rintro rfl
    exact hfresh (Entries.mem_keys_iff.mpr ⟨found, hg⟩)
  rw [get?_insert, if_neg hne, hg]

/-- A table with an entry that is no dependency is no leaf. -/
theorem not_isLeaf_of_get? {t : Table} {key : String} {node : Node}
    (hg : t.get? key = some node) (hn : node.isDependency = false) : t.isLeaf = false :=
  List.all_eq_false.mpr ⟨_, Entries.mem_of_get? hg, by rw [hn]; exact Bool.false_ne_true⟩

/-- A table that is no leaf stays none when it gets a new key. -/
theorem not_isLeaf_insert {t : Table} {key : String} (ht : t.isLeaf = false)
    (hfresh : key ∉ t.keys) (node : Node) : (t.insert key node).isLeaf = false := by
  have hentries : (t.insert key node).entries = t.entries ++ [(key, node)] :=
    Entries.insert_of_not_mem hfresh
  have hall : t.entries.all (fun e => e.2.isDependency) = false := ht
  rw [isLeaf, hentries, List.all_append, hall, Bool.false_and]

/-- A table that is no leaf is no dependency, so the table that holds it is no leaf either. -/
theorem not_isLeaf_insert_table {t next : Table} (hnext : next.isLeaf = false) (key : String) :
    (t.insert key (.table next)).isLeaf = false := by
  apply not_isLeaf_of_get? (t.get?_insert_self key _)
  cases hd : next.isDependency with
  | false => exact hd
  | true =>
    rw [isLeaf_of_isDependency hd] at hnext
    cases hnext

/-- One table above the end of `path` gets a new key, with any node under it. -/
inductive Grows : List String → Table → Table → Prop where
  | here {path : List String} {t : Table} {key : String} (above : path ≠ []) (fresh : key ∉ t.keys)
      (node : Node) : Grows path t (t.insert key node)
  | deeper {key : String} {rest : List String} {t next grown : Table}
      (found : t.get? key = some (.table next)) (grows : Grows rest next grown) :
      Grows (key :: rest) t (t.insert key (.table grown))

theorem Grows.path_ne_nil {path : List String} {t grown : Table} (h : Grows path t grown) :
    path ≠ [] := by
  cases h with
  | here above _ _ => exact above
  | deeper _ _ => exact List.cons_ne_nil _ _

/-- A path that leads to a leaf leads to the same leaf when a table above it grows. -/
theorem Leads.of_grows {path : List String} {t leaf grown : Table} (h : Leads t path leaf)
    (hg : Grows path t grown) : Leads grown path leaf := by
  induction h generalizing grown with
  | direct above found hleaf =>
    cases hg with
    | here _ fresh node =>
      have habove := not_isLeaf_insert above fresh node
      exact .direct habove (get?_insert_of_get? fresh found node) hleaf
    | deeper _ grows => exact absurd rfl grows.path_ne_nil
  | @through _ _ _ key _ above found leads ih =>
    cases hg with
    | here _ fresh node =>
      have habove := not_isLeaf_insert above fresh node
      exact .through habove (get?_insert_of_get? fresh found node) leads
    | deeper found' grows =>
      obtain rfl := Node.table.inj (Option.some.inj (found.symm.trans found'))
      have hleads := ih grows
      apply Leads.through (not_isLeaf_insert_table hleads.not_isLeaf key) _ hleads
      apply get?_insert_self

theorem Leads.of_grows_many {path : List String} {t leaf grown : Table} (h : Leads t path leaf)
    (hg : Relation.ReflTransGen (Grows path) t grown) : Leads grown path leaf := by
  induction hg with
  | refl => exact h
  | tail _ hstep ih => exact ih.of_grows hstep

end TableOf

namespace Manifest

open TableOf

/-- What is extracted from a section stays the same, whatever is added above it under new keys. -/
theorem recordsAt_of_grows {m m' : Manifest} {name : String} {records : List Record}
    (h : m.recordsAt name = .ok records)
    (hg : Relation.ReflTransGen (Grows (Text.pieces '.' name)) m.root m'.root) :
    m'.recordsAt name = .ok records := by
  obtain ⟨path, leaf, rfl, hleaf⟩ := exists_leafAt_of_recordsAt h
  have hleads : Leads m.root path.segments leaf := leafAt_eq_ok_iff.mp hleaf
  have hleaf' : m'.leafAt path = .ok leaf := leafAt_eq_ok_iff.mpr (hleads.of_grows_many hg)
  rw [recordsAt_eq_mapM hleaf']
  rw [recordsAt_eq_mapM hleaf] at h
  exact h

/-- A section two tables below the root. -/
def nestedDeps : Manifest :=
  let deps := (TableOf.empty false).insert "numpy" (.string "^1.16")
  let tool := (TableOf.empty true).insert "deps" (.table deps)
  ⟨(TableOf.empty false).insert "tool" (.table tool)⟩

/-- A dependency in the form of a table beside the tool, then a version in the tool. -/
def nestedDepsGrown : Manifest :=
  let deps := (TableOf.empty false).insert "numpy" (.string "^1.16")
  let tool := ((TableOf.empty true).insert "deps" (.table deps)).insert "version" (.string "2")
  let torch := (TableOf.empty true).insert "version" (.string "1.4")
  ⟨((TableOf.empty false).insert "tool" (.table tool)).insert "torch" (.table torch)⟩

theorem recordsAt_of_grows_nested :
    let records : List Record := [⟨"numpy", ⟨"^1.16", [⟨.caret, "1.16"⟩]⟩, .standard⟩]
    nestedDeps.recordsAt "tool.deps" = .ok records ∧
    Relation.ReflTransGen (Grows (Text.pieces '.' "tool.deps")) nestedDeps.root
      nestedDepsGrown.root ∧
    nestedDepsGrown.recordsAt "tool.deps" = .ok records := by
  intro records
  have hpieces : Text.pieces '.' "tool.deps" = ["tool", "deps"] := by decide
  have h : nestedDeps.recordsAt "tool.deps" = .ok records := by rfl
  have hroot := @Grows.here ["tool", "deps"] nestedDeps.root "torch" (by decide) (by decide)
    (.table ((TableOf.empty true).insert "version" (.string "1.4")))
  have hg : Relation.ReflTransGen (Grows (Text.pieces '.' "tool.deps")) nestedDeps.root
      nestedDepsGrown.root := by
    rw [hpieces]
    refine (Relation.ReflTransGen.single hroot).tail ?_
    exact .deeper rfl (.here (by decide) (by decide) (.string "2"))
  exact ⟨h, hg, recordsAt_of_grows h hg⟩

end Manifest

end EnvSpec
