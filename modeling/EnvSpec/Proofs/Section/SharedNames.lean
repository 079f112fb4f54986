import Mathlib.Data.List.Nodup
import EnvSpec.Proofs.Section.Listing

/-!
# Sections that share a name

A section is listed by the keys that lead to it, joined by dots, and each list of keys is met once.
The join forgets where one key ends and the next begins if a key has a dot in it. So two sections
are listed under one name exactly if their keys are different and joined to the same text, and it
takes a dot in a key for that. Keys that are empty do no harm.
-/
namespace EnvSpec

/-- Keys without dots are got back from their join. -/
theorem Text.join_inj_of_undotted {p q : List String} (hp : p ≠ []) (hq : q ≠ [])
    (hp' : ∀ key ∈ p, '.' ∉ key.toList) (hq' : ∀ key ∈ q, '.' ∉ key.toList)
    (h : join '.' p = join '.' q) : p = q := by
  rw [← pieces_join '.' p hp hp', h, pieces_join '.' q hq hq']

theorem TableOf.nodup_leafPathsBelow {t : Table} (hd : (Node.table t).Every DistinctKeys) :
    (leafPathsBelow t.entries).Nodup := by
  refine (pairwise_declaredBefore hd).imp fun hbefore he => ?_
  subst he
  exact hbefore.asymm hbefore

namespace Manifest

open TableOf

/-- The list has the join of each list of keys that leads to a section. It names two sections alike
exactly if two different such lists have the same join, which they cannot have without a dot in a
key. -/
theorem sections_nodup_iff (m : Manifest) (hb : (Node.table m.root).Built) :
    (∀ name, name ∈ m.sections ↔ ∃ path, m.root.Lists path ∧ Text.join '.' path = name) ∧
    (m.sections.Nodup ↔ ∀ p q, m.root.Lists p → m.root.Lists q →
      Text.join '.' p = Text.join '.' q → p = q) ∧
    ((∀ path, m.root.Lists path → ∀ key ∈ path, '.' ∉ key.toList) → m.sections.Nodup) := by
  have hd := Node.built_iff.mp hb
  have hnodup : m.sections.Nodup ↔ ∀ p q, m.root.Lists p → m.root.Lists q →
      Text.join '.' p = Text.join '.' q → p = q := by
    rw [sections_eq_map, List.nodup_map_iff_inj_on (nodup_leafPathsBelow hd)]
    simp only [mem_leafPathsBelow_iff_lists hd]
    exact ⟨fun h p q hp hq => h p hp q hq, fun h p hp q hq => h p q hp hq⟩
  refine ⟨fun name => ?_, hnodup, fun hundotted => hnodup.mpr fun p q hp hq => ?_⟩
  · simp only [sections_eq_map, List.mem_map, mem_leafPathsBelow_iff_lists hd]
  · exact Text.join_inj_of_undotted hp.path_ne_nil hq.path_ne_nil (hundotted p hp) (hundotted q hq)

/-- Empty keys, and a dot in the name of a package. -/
def emptyKeys : Manifest :=
  let leaf := (TableOf.empty false).insert "zope.interface" (.string "5")
  let inner := ((TableOf.empty false).insert "" (.table leaf)).insert "b" (.table leaf)
  ⟨(TableOf.empty false).insert "" (.table inner)⟩

theorem sections_nodup_iff_empty_keys :
    (Node.table emptyKeys.root).Built ∧ emptyKeys.sections = [".", ".b"] ∧
    emptyKeys.sections.Nodup := by
  have hb : (Node.table emptyKeys.root).Built := by
    have hleaf := (Node.Built.empty false).insert "zope.interface" (.string "5")
    have hinner := ((Node.Built.empty false).insert "" hleaf).insert "b" hleaf
    exact (Node.Built.empty false).insert "" hinner
  obtain ⟨-, -, hundotted⟩ := sections_nodup_iff emptyKeys hb
  have hpaths : leafPathsBelow emptyKeys.root.entries = [["", ""], ["", "b"]] := by decide +kernel
  refine ⟨hb, by decide +kernel, hundotted fun path hpath => ?_⟩
  rw [← mem_leafPathsBelow_iff_lists (Node.built_iff.mp hb), hpaths] at hpath
  rcases List.mem_pair.mp hpath with rfl | rfl <;> decide

/-- One key with a dot in it, beside two keys that are joined by one. -/
def dottedKey : Manifest :=
  let x := (TableOf.empty true).insert "x" (.string "1")
  let y := (TableOf.empty true).insert "y" (.string "2")
  let a := (TableOf.empty true).insert "b" (.table x)
  ⟨((TableOf.empty true).insert "a" (.table a)).insert "a.b" (.table y)⟩

theorem dottedKey_listed_twice :
    (Node.table dottedKey.root).Built ∧ dottedKey.sections = ["a.b", "a.b"] ∧
    ¬dottedKey.sections.Nodup := by
  have hx := (Node.Built.empty true).insert "x" (.string "1")
  have hy := (Node.Built.empty true).insert "y" (.string "2")
  have ha := (Node.Built.empty true).insert "b" hx
  exact ⟨((Node.Built.empty true).insert "a" ha).insert "a.b" hy, by decide +kernel,
    by decide +kernel⟩

end Manifest

end EnvSpec
