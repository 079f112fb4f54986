import EnvSpec.Proofs.Section.Walk
import EnvSpec.Proofs.Text.Cutting

/-!
# Strings and sections under one dotted text

A dotted text can be read as the key of a string and as the path of a section. The string is looked
up through tables of any kind, while the walk to a section passes through no leaf. So what is found
right below a section are the strings among its entries, and a text that names a string names no
section: the walk stops at the string, or before it at the first leaf below the root.
-/
namespace EnvSpec

theorem Node.bind_asString?_eq_some_iff {found : Option Node} {text : String} :
    found.bind asString? = some text ↔ found = some (.string text) := by
  cases found with
  | none => simp
  | some node => cases node <;> simp [asString?]

namespace TableOf

theorem Leads.descend?_append {t leaf : Table} {path : List String} (h : Leads t path leaf)
    (rest : List String) : t.descend? (path ++ rest) = leaf.descend? rest := by
  induction h with
  | direct _ hg _ => exact descend?_cons_of_table hg rest
  | through _ hg _ ih => rw [List.cons_append, descend?_cons_of_table hg, ih]

/-- A leaf has strings and tables only. -/
theorem bind_asString?_eq_none_iff {t : Table} (ht : t.isLeaf = true) {key : String} :
    (t.get? key).bind Node.asString? = none ↔
      t.get? key = none ∨ ∃ next, t.get? key = some (.table next) := by
  cases hg : t.get? key with
  | none => simp
  | some node =>
    cases node with
    | table _ | string _ => simp [Node.asString?]
    | other _ => cases List.all_eq_true.mp ht _ (Entries.mem_of_get? hg)

theorem not_isEmpty_of_descend? {t : Table} {path : List String} {node : Node} (hp : path ≠ [])
    (h : t.descend? path = some node) : t.isEmpty = false := by
  cases path with
  | nil => exact absurd rfl hp
  | cons key rest =>
    cases he : t.isEmpty with
    | false => rfl
    | true =>
      rw [descend?_cons_of_none (get?_of_isEmpty he key)] at h
      cases h

/-- None of the tables under the keys of `path` is a leaf. The table they start from may be one. -/
def NoLeafBelow (t : Table) (path : List String) : Prop :=
  ∀ passed, passed ≠ [] → passed <+: path → ∀ below, t.descend? passed = some (.table below) →
    below.isLeaf = false

theorem noLeafBelow_nil (t : Table) : t.NoLeafBelow [] :=
  fun _ hne hpassed => absurd (List.prefix_nil.mp hpassed) hne

theorem NoLeafBelow.cons {t next : Table} {key : String} {path : List String}
    (hg : t.get? key = some (.table next)) (hnext : next.isLeaf = false)
    (h : next.NoLeafBelow path) : t.NoLeafBelow (key :: path) := by
  intro passed hne hpassed below hreached
  rcases List.prefix_cons_iff.mp hpassed with rfl | ⟨rest, rfl, hrest⟩
  · exact absurd rfl hne
  · rw [descend?_cons_of_table hg] at hreached
    by_cases hempty : rest = []
    · subst hempty
      obtain rfl := Node.table.inj (Option.some.inj hreached)
      exact hnext
    · exact h rest hempty hrest below hreached

/-- A walk along keys that lead to a string stops at the first leaf that it meets, or at the string
if it meets none. Such a leaf is called a dependency if it stands in a leaf, and this can only be
the table where the walk began. -/
theorem walk_of_descend?_string {t : Table} {path : List String} {text : String}
    (h : t.descend? path = some (.string text)) :
    ∃ before segment after kind, path = before ++ segment :: after ∧
      t.walk path = .error (segment, .found kind) ∧ t.NoLeafBelow before ∧
      (after = [] ∧ kind = .string ∨
        after ≠ [] ∧ kind = (if t.isLeaf then .entry else .leaf) ∧
          ∃ leaf, t.descend? (before ++ [segment]) = some (.table leaf) ∧ leaf.isLeaf = true) := by
  induction path generalizing t with
  | nil => cases h
  | cons key rest ih =>
    by_cases hr : rest = []
    · subst hr
      have hstop : t.arrive key = .error (.found .string) := arrive_of_scalar h rfl
      exact ⟨[], key, [], .string, rfl, walk_singleton_eq_error_iff.mpr ⟨rfl, hstop⟩,
        t.noLeafBelow_nil, Or.inl ⟨rfl, rfl⟩⟩
    · obtain ⟨next, hg, hnext⟩ := (descend?_cons_eq_some_iff hr).mp h
      have hpass := passThrough_of_table hg
      cases ht : t.isLeaf with
      | true =>
        -- Only a walk that begins in a leaf comes here: the steps below enter none.
        have hleaf := isLeaf_of_isDependency (isDependency_of_get? ht hg)
        rw [ht, if_pos rfl] at hpass
        exact ⟨[], key, rest, .entry, rfl, walk_cons_of_error hr hpass,
          t.noLeafBelow_nil, Or.inr ⟨hr, rfl, next, hg, hleaf⟩⟩
      | false =>
        rw [ht, if_neg Bool.false_ne_true, not_isEmpty_of_descend? hr hnext] at hpass
        cases hleaf : next.isLeaf with
        | true =>
          rw [hleaf] at hpass
          exact ⟨[], key, rest, .leaf, rfl, walk_cons_of_error hr hpass,
            t.noLeafBelow_nil, Or.inr ⟨hr, rfl, next, hg, hleaf⟩⟩
        | false =>
          rw [hleaf] at hpass
          obtain ⟨before, segment, after, kind, rfl, hwalk, hbefore, hstop⟩ := ih hnext
          rw [hleaf] at hstop
          refine ⟨key :: before, segment, after, kind, rfl, ?_, .cons hg hleaf hbefore,
            hstop.imp_right ?_⟩
          · rw [walk_cons_of_ok hr hpass, hwalk]
          · rintro ⟨hafter, hkind, leaf, hreached, hl⟩
            refine ⟨hafter, hkind, leaf, ?_, hl⟩
            rw [List.cons_append, descend?_cons_of_table hg, hreached]

end TableOf

namespace Manifest

open TableOf

theorem string?_below_leaf {m : Manifest} {path : SectionPath} {leaf : Table}
    (h : m.leafAt path = .ok leaf) {key : String} (hkey : '.' ∉ key.toList) :
    m.string? (path.text ++ "." ++ key) = (leaf.get? key).bind Node.asString? := by
  have hpieces : Text.pieces '.' (path.text ++ "." ++ key) = path.segments ++ [key] := by
    rw [← Text.pieces_of_not_mem hkey]
    exact Text.pieces_append '.' path.text key
  rw [string?, hpieces, (leafAt_eq_ok_iff.mp h).descend?_append]
  rfl

theorem string?_eq_some_iff {m : Manifest} {dotted text : String} :
    m.string? dotted = some text ↔
      m.root.descend? (Text.pieces '.' dotted) = some (.string text) :=
  Node.bind_asString?_eq_some_iff

/-- One key below the path of a section, the strings are those of the section. And a text that names
a string names no section: as a path it is refused for the string at its end, or for a table before
the end that is a leaf, which is called a dependency exactly if the root is a leaf. -/
theorem string?_agrees_with_leafAt (m : Manifest) :
    (∀ path leaf key, m.leafAt path = .ok leaf → '.' ∉ key.toList →
      (∀ text, m.string? (path.text ++ "." ++ key) = some text ↔
        leaf.get? key = some (.string text)) ∧
      (m.string? (path.text ++ "." ++ key) = none ↔
        leaf.get? key = none ∨ ∃ next, leaf.get? key = some (.table next))) ∧
    ∀ dotted text, (∀ piece ∈ Text.pieces '.' dotted, piece ≠ "") →
      m.string? dotted = some text →
      ∃ path before segment after found, SectionPath.parse dotted = .ok path ∧
        path.segments = before ++ segment :: after ∧
        m.leafAt path = .error (.noDependencies dotted segment found) ∧
        m.root.NoLeafBelow before ∧
        (after = [] ∧ found = .string ∨
          after ≠ [] ∧ found = (if m.root.isLeaf then .entry else .leaf) ∧
            ∃ leaf, m.root.descend? (before ++ [segment]) = some (.table leaf) ∧
              leaf.isLeaf = true) := by
  refine ⟨fun path leaf key hleaf hkey => ?_, fun dotted text hne htext => ?_⟩
  · rw [string?_below_leaf hleaf hkey]
    exact ⟨fun text => Node.bind_asString?_eq_some_iff,
      bind_asString?_eq_none_iff (leafAt_eq_ok_iff.mp hleaf).isLeaf⟩
  · obtain ⟨before, segment, after, found, hsegments, hwalk, hstop⟩ :=
      walk_of_descend?_string (string?_eq_some_iff.mp htext)
    refine ⟨⟨dotted, hne⟩, before, segment, after, found, SectionPath.parse_eq_ok_iff.mpr rfl,
      hsegments, ?_, hstop⟩
    rw [leafAt_eq_walk, SectionPath.segments, hwalk]
    rfl

/-- A section beside a string, with a dependency of either form. -/
def projectDeps : Manifest :=
  let torch := (TableOf.empty true).insert "channel" (.string "pip")
  let deps := ((TableOf.empty false).insert "numpy" (.string "1.16")).insert "torch" (.table torch)
  let project := ((TableOf.empty false).insert "name" (.string "demo")).insert "deps" (.table deps)
  ⟨(TableOf.empty false).insert "project" (.table project)⟩

theorem string?_agrees_with_leafAt_project :
    (∃ leaf, projectDeps.leafAt ⟨"project.deps", by decide⟩ = .ok leaf ∧
      projectDeps.string? "project.deps.numpy" = some "1.16" ∧
      projectDeps.string? "project.deps.torch" = none) ∧
    ∃ path segment found, SectionPath.parse "project.deps.numpy" = .ok path ∧
      projectDeps.leafAt path = .error (.noDependencies "project.deps.numpy" segment found) ∧
      (found = .string ∨ found = .leaf) := by
  obtain ⟨hbelow, habove⟩ := string?_agrees_with_leafAt projectDeps
  have hnumpy : projectDeps.string? "project.deps.numpy" = some "1.16" := by
    have h := (hbelow ⟨"project.deps", by decide⟩ _ "numpy" rfl (by decide)).1 "1.16"
    exact h.mpr rfl
  have htorch : projectDeps.string? "project.deps.torch" = none := by
    have h := (hbelow ⟨"project.deps", by decide⟩ _ "torch" rfl (by decide)).2
    exact h.mpr (Or.inr ⟨_, rfl⟩)
  obtain ⟨path, before, segment, after, found, hparse, -, hrefused, -, hstop⟩ :=
    habove _ _ (by decide) hnumpy
  refine ⟨⟨_, rfl, hnumpy, htorch⟩, path, segment, found, hparse, hrefused, ?_⟩
  rcases hstop with ⟨-, hfound⟩ | ⟨-, hfound, -⟩
  · exact Or.inl hfound
  · exact Or.inr hfound

end Manifest

end EnvSpec
