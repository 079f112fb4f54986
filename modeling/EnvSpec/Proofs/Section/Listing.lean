import Mathlib.Data.List.Basic
import EnvSpec.Proofs.Manifest.Tree
import EnvSpec.Proofs.Section.Walk
import EnvSpec.Proofs.Text.Cutting

/-!
# The listed sections are those that resolve

The list of sections is collected by one traversal that builds dotted names on the way down, and a
section is resolved by another that looks up one key after the other. Both are related to lists of
keys: `leafPaths` is the first traversal before the names are put together, and `TableOf.Leads` says
where the second arrives. They agree unless the root is itself a leaf: the listing never asks whether
it is, and then names the dependencies that are written as tables.
-/
namespace EnvSpec

mutual

/-- The keys that lead from a node to each non-empty leaf at and below it. -/
def Node.leafPaths : Node → List (List String)
  | .table ⟨inline, entries⟩ =>
    let t : Table := ⟨inline, entries⟩
    if t.isLeaf then if t.isEmpty then [] else [[]]
    else leafPathsBelow entries
  | .string _ => []
  | .other _ => []

def leafPathsBelow : Entries String Node → List (List String)
  | [] => []
  | (key, node) :: rest => node.leafPaths.map (key :: ·) ++ leafPathsBelow rest

end

theorem Node.leafPaths_table (t : Table) :
    (Node.table t).leafPaths =
      if t.isLeaf then if t.isEmpty then [] else [[]] else leafPathsBelow t.entries := by
  obtain ⟨_, _⟩ := t
  rw [leafPaths]

theorem Node.sectionsAt_table (name : String) (t : Table) :
    (Node.table t).sectionsAt name =
      if t.isLeaf then if t.isEmpty then [] else [name] else sectionsBelow name t.entries := by
  obtain ⟨_, _⟩ := t
  rw [sectionsAt]

theorem leafPathsBelow_eq_flatMap (entries : Entries String Node) :
    leafPathsBelow entries = entries.flatMap fun e => e.2.leafPaths.map (e.1 :: ·) := by
  induction entries with
  | nil => rfl
  | cons _ _ ih => rw [leafPathsBelow, ih, List.flatMap_cons]

theorem sectionsBelow_eq_flatMap (name : String) (entries : Entries String Node) :
    sectionsBelow name entries = entries.flatMap fun e => e.2.sectionsAt (name ++ "." ++ e.1) := by
  induction entries with
  | nil => rfl
  | cons _ _ ih => rw [sectionsBelow, ih, List.flatMap_cons]

theorem join_dotted_head (name key : String) (path : List String) :
    Text.join '.' ((name ++ "." ++ key) :: path) = Text.join '.' (name :: key :: path) := by
  cases path with
  | nil => rw [Text.join_cons_cons, Text.join_singleton, Text.join_singleton]; rfl
  | cons _ _ =>
    rw [Text.join_cons_cons, Text.join_cons_cons, Text.join_cons_cons]
    simp only [String.append_assoc]
    rfl

/-- The names on the list are the key lists joined by dots. -/
theorem Node.sectionsAt_eq_map (node : Node) (name : String) :
    node.sectionsAt name = node.leafPaths.map fun path => Text.join '.' (name :: path) := by
  induction node using Node.tree_induction generalizing name with
  | string _ | other _ => rfl
  | table t ih =>
    rw [sectionsAt_table, leafPaths_table]
    split
    · split
      · rfl
      · rw [List.map_singleton, Text.join_singleton]
    · rw [sectionsBelow_eq_flatMap, leafPathsBelow_eq_flatMap, List.map_flatMap]
      refine List.flatMap_congr fun e he => ?_
      rw [ih e he, List.map_map]
      exact List.map_congr_left fun path _ => join_dotted_head name e.1 path

theorem Manifest.sections_eq_map (m : Manifest) :
    m.sections = (leafPathsBelow m.root.entries).map (Text.join '.') := by
  rw [sections, leafPathsBelow_eq_flatMap, List.map_flatMap]
  refine List.flatMap_congr fun e _ => ?_
  rw [Node.sectionsAt_eq_map, List.map_map]
  rfl

namespace TableOf

/-- The keys of `path` lead from a table to a leaf with entries, past tables that are no leaves. The
table they start from may be one. -/
inductive Lists : Table → List String → Prop where
  | direct {t leaf : Table} {key : String} (found : t.get? key = some (.table leaf))
      (isLeaf : leaf.isLeaf = true) (filled : leaf.isEmpty = false) : Lists t [key]
  | through {t next : Table} {key : String} {rest : List String}
      (found : t.get? key = some (.table next)) (between : next.isLeaf = false)
      (lists : Lists next rest) : Lists t (key :: rest)

theorem Lists.path_ne_nil {t : Table} {path : List String} (h : Lists t path) : path ≠ [] := by
  cases h <;> exact List.cons_ne_nil _ _

/-- The listing goes below every table that is no leaf. -/
theorem mem_leafPathsBelow_iff_lists {t : Table} (hd : (Node.table t).Every DistinctKeys)
    {path : List String} : path ∈ leafPathsBelow t.entries ↔ Lists t path := by
  induction t using tree_induction generalizing path with
  | step t ih =>
    obtain ⟨hkeys, hinside⟩ := Node.every_table_iff.mp hd
    rw [leafPathsBelow_eq_flatMap]
    simp only [List.mem_flatMap, List.mem_map]
    constructor
    · rintro ⟨⟨key, node⟩, he, rest, hrest, rfl⟩
      cases node with
      | string _ | other _ => cases hrest
      | table next =>
        have hg := get?_of_mem hkeys he
        rw [Node.leafPaths_table] at hrest
        cases hl : next.isLeaf with
        | true =>
          rw [hl, if_pos rfl] at hrest
          split at hrest
          · cases hrest
          · next hempty =>
            obtain rfl := List.mem_singleton.mp hrest
            exact .direct hg hl (by simpa using hempty)
        | false =>
          rw [hl, if_neg Bool.false_ne_true] at hrest
          exact .through hg hl ((ih key next he (hinside _ he)).mp hrest)
    · intro hlists
      cases hlists with
      | direct hg hl hempty =>
        refine ⟨_, Entries.mem_of_get? hg, [], ?_, rfl⟩
        simp [Node.leafPaths_table, hl, hempty]
      | through hg hl hlists =>
        have he := Entries.mem_of_get? hg
        refine ⟨_, he, _, ?_, rfl⟩
        rw [Node.leafPaths_table, hl, if_neg Bool.false_ne_true]
        exact (ih _ _ he (hinside _ he)).mpr hlists

/-- From a table that is no leaf, what is listed is what resolves to a leaf with entries. -/
theorem lists_iff_leads {t : Table} (ht : t.isLeaf = false) {path : List String} :
    Lists t path ↔ ∃ leaf, Leads t path leaf ∧ leaf.isEmpty = false := by
  constructor
  · intro h
    induction h with
    | direct hg hl hempty => exact ⟨_, .direct ht hg hl, hempty⟩
    | through hg hl _ ih =>
      obtain ⟨leaf, hleads, hempty⟩ := ih hl
      exact ⟨leaf, .through ht hg hleads, hempty⟩
  · rintro ⟨leaf, hleads, hempty⟩
    induction hleads with
    | direct _ hg hl => exact .direct hg hl hempty
    | through _ hg hleads ih => exact .through hg hleads.not_isLeaf (ih hleads.not_isLeaf hempty)

theorem mem_leafPathsBelow_iff {t : Table} (hd : (Node.table t).Every DistinctKeys)
    (ht : t.isLeaf = false) {path : List String} :
    path ∈ leafPathsBelow t.entries ↔ ∃ leaf, Leads t path leaf ∧ leaf.isEmpty = false :=
  (mem_leafPathsBelow_iff_lists hd).trans (lists_iff_leads ht)

theorem Leads.plain {t leaf : Table} {path : List String} (h : Leads t path leaf)
    (hp : (Node.table t).Every PlainKeys) : ∀ key ∈ path, key ≠ "" ∧ '.' ∉ key.toList := by
  have hfirst {t : Table} {key : String} {node : Node} (hp : (Node.table t).Every PlainKeys)
      (hg : t.get? key = some node) : key ≠ "" ∧ '.' ∉ key.toList :=
    (Node.every_table_iff.mp hp).1 key (List.mem_map_of_mem (Entries.mem_of_get? hg))
  induction h with
  | direct _ hg _ =>
    intro key hk
    obtain rfl := List.mem_singleton.mp hk
    exact hfirst hp hg
  | through _ hg _ ih =>
    intro key hk
    rcases List.mem_cons.mp hk with rfl | hk
    · exact hfirst hp hg
    · exact ih (hp.of_get? hg) key hk

/-- Where two paths part, the key of `p` is declared before that of `q` in their common table. -/
def DeclaredBefore (t : Table) (p q : List String) : Prop :=
  ∃ (common : List String) (a b : String) (p' q' : List String) (table : Table),
    p = common ++ a :: p' ∧ q = common ++ b :: q' ∧
      t.descend? common = some (.table table) ∧ table.keys.idxOf a < table.keys.idxOf b

theorem DeclaredBefore.cons {t next : Table} {key : String} (hg : t.get? key = some (.table next))
    {p q : List String} (h : DeclaredBefore next p q) :
    DeclaredBefore t (key :: p) (key :: q) := by
  obtain ⟨common, a, b, p', q', table, rfl, rfl, hr, hlt⟩ := h
  exact ⟨key :: common, a, b, p', q', table, rfl, rfl, by rw [descend?_cons_of_table hg, hr], hlt⟩

/-- Two lists part at one place only. -/
theorem eq_of_parting {a b a' b' : String} {common common' p q p' q' : List String}
    (hp : common ++ a :: p = common' ++ a' :: p') (hq : common ++ b :: q = common' ++ b' :: q')
    (hab : a ≠ b) (hab' : a' ≠ b') : common = common' ∧ a = a' ∧ b = b' := by
  induction common generalizing common' with
  | nil =>
    cases common' with
    | nil => exact ⟨rfl, (List.cons.inj hp).1, (List.cons.inj hq).1⟩
    | cons c _ => exact absurd ((List.cons.inj hp).1.trans (List.cons.inj hq).1.symm) hab
  | cons c common ih =>
    cases common' with
    | nil => exact absurd ((List.cons.inj hp).1.symm.trans (List.cons.inj hq).1) hab'
    | cons c' common' =>
      obtain ⟨rfl, hrest⟩ := List.cons.inj hp
      obtain ⟨rfl, ha, hb⟩ := ih hrest (List.cons.inj hq).2
      exact ⟨rfl, ha, hb⟩

theorem DeclaredBefore.asymm {t : Table} {p q : List String} (h : DeclaredBefore t p q) :
    ¬DeclaredBefore t q p := by
  obtain ⟨common, a, b, p', q', table, rfl, rfl, hr, hlt⟩ := h
  rintro ⟨common', b', a', q'', p'', table', hq, hp, hr', hlt'⟩
  have hne {a b : String} {table : Table} (h : table.keys.idxOf a < table.keys.idxOf b) : a ≠ b := by
    rintro rfl
    exact Nat.lt_irrefl _ h
  obtain ⟨rfl, rfl, rfl⟩ := eq_of_parting hp hq (hne hlt) (hne hlt').symm
  obtain rfl := Node.table.inj (Option.some.inj (hr.symm.trans hr'))
  exact Nat.lt_asymm hlt hlt'

theorem pairwise_declaredBefore {t : Table} (hd : (Node.table t).Every DistinctKeys) :
    (leafPathsBelow t.entries).Pairwise (DeclaredBefore t) := by
  induction t using tree_induction with
  | step t ih =>
    obtain ⟨hkeys, hinside⟩ := Node.every_table_iff.mp hd
    rw [leafPathsBelow_eq_flatMap, List.pairwise_flatMap]
    constructor
    · rintro ⟨key, node⟩ he
      rw [List.pairwise_map]
      cases node with
      | string _ | other _ => exact .nil
      | table next =>
        have hg := get?_of_mem hkeys he
        rw [Node.leafPaths_table]
        split
        · split
          · exact .nil
          · exact List.pairwise_singleton _ _
        · exact (ih key next he (hinside _ he)).imp fun h => h.cons hg
    · rw [List.pairwise_iff_getElem]
      intro i j hi hj hij p hp q hq
      obtain ⟨p', -, rfl⟩ := List.mem_map.mp hp
      obtain ⟨q', -, rfl⟩ := List.mem_map.mp hq
      have hidx (n : Nat) (hn : n < t.entries.length) : t.keys.idxOf t.entries[n].1 = n := by
        have hk := hkeys.idxOf_getElem n (by simpa [keys, Entries.keys] using hn)
        simpa [keys, Entries.keys] using hk
      exact ⟨[], _, _, p', q', t, rfl, rfl, rfl, by rwa [hidx i hi, hidx j hj]⟩

end TableOf

namespace Manifest

open TableOf

/-- The keys on a listed path are read back from its name. -/
theorem pieces_of_mem {m : Manifest} (hd : (Node.table m.root).Every DistinctKeys)
    (hp : (Node.table m.root).Every PlainKeys) (hr : m.root.isLeaf = false) {path : List String}
    (h : path ∈ leafPathsBelow m.root.entries) : Text.pieces '.' (Text.join '.' path) = path := by
  obtain ⟨leaf, hleads, -⟩ := (mem_leafPathsBelow_iff hd hr).mp h
  exact Text.pieces_join '.' path hleads.path_ne_nil fun key hk => (hleads.plain hp key hk).2

theorem mem_sections_iff {m : Manifest} (hd : (Node.table m.root).Every DistinctKeys)
    (hp : (Node.table m.root).Every PlainKeys) (hr : m.root.isLeaf = false) {name : String} :
    name ∈ m.sections ↔ ∃ path leaf,
      SectionPath.parse name = .ok path ∧ m.leafAt path = .ok leaf ∧ leaf.isEmpty = false := by
  rw [sections_eq_map, List.mem_map]
  constructor
  · rintro ⟨keys, hmem, rfl⟩
    have hpieces := pieces_of_mem hd hp hr hmem
    obtain ⟨leaf, hleads, hempty⟩ := (mem_leafPathsBelow_iff hd hr).mp hmem
    have hne : ∀ s ∈ Text.pieces '.' (Text.join '.' keys), s ≠ "" := by
      rw [hpieces]
      exact fun key hk => (hleads.plain hp key hk).1
    refine ⟨⟨Text.join '.' keys, hne⟩, leaf, SectionPath.parse_eq_ok_iff.mpr rfl, ?_, hempty⟩
    rw [leafAt_eq_ok_iff, SectionPath.segments, hpieces]
    exact hleads
  · rintro ⟨path, leaf, hparse, hleaf, hempty⟩
    obtain rfl := SectionPath.parse_eq_ok_iff.mp hparse
    rw [leafAt_eq_ok_iff] at hleaf
    exact ⟨path.segments, (mem_leafPathsBelow_iff hd hr).mpr ⟨leaf, hleaf, hempty⟩, path.join_segments⟩

theorem pairwise_sections {m : Manifest} (hd : (Node.table m.root).Every DistinctKeys)
    (hp : (Node.table m.root).Every PlainKeys) (hr : m.root.isLeaf = false) :
    m.sections.Pairwise fun p q =>
      m.root.DeclaredBefore (Text.pieces '.' p) (Text.pieces '.' q) := by
  rw [sections_eq_map, List.pairwise_map]
  refine (pairwise_declaredBefore hd).imp_of_mem fun hmem hmem' h => ?_
  rwa [pieces_of_mem hd hp hr hmem, pieces_of_mem hd hp hr hmem']

/-- The list names exactly the paths that resolve to a leaf with entries, each once, and in the
order in which their keys are declared. -/
theorem sections_exact (m : Manifest) (hb : (Node.table m.root).Built)
    (hp : (Node.table m.root).Every PlainKeys) (hr : m.root.isLeaf = false) :
    (∀ name, name ∈ m.sections ↔ ∃ path leaf,
      SectionPath.parse name = .ok path ∧ m.leafAt path = .ok leaf ∧ leaf.isEmpty = false) ∧
    m.sections.Nodup ∧
    ∀ p ∈ m.sections, ∀ q ∈ m.sections,
      (m.sections.idxOf p < m.sections.idxOf q ↔
        m.root.DeclaredBefore (Text.pieces '.' p) (Text.pieces '.' q)) := by
  have hd := Node.built_iff.mp hb
  have hpairs := pairwise_sections hd hp hr
  have hbefore {p q : String} (hmem : q ∈ m.sections)
      (hlt : m.sections.idxOf p < m.sections.idxOf q) :
      m.root.DeclaredBefore (Text.pieces '.' p) (Text.pieces '.' q) := by
    have hq := List.idxOf_lt_length_of_mem hmem
    have h := List.pairwise_iff_getElem.mp hpairs _ _ (Nat.lt_trans hlt hq) hq hlt
    rwa [List.getElem_idxOf, List.getElem_idxOf] at h
  refine ⟨fun name => mem_sections_iff hd hp hr, hpairs.imp fun h he => ?_, fun p hmem q hmem' => ?_⟩
  · exact (he ▸ h).asymm (he ▸ h)
  · refine ⟨hbefore hmem', fun h => ?_⟩
    rcases Nat.lt_trichotomy (m.sections.idxOf p) (m.sections.idxOf q) with hlt | heq | hlt
    · exact hlt
    · obtain rfl := (List.idxOf_inj hmem).mp heq
      exact absurd h h.asymm
    · exact absurd h (hbefore hmem hlt).asymm

/-- Two sections below one table, beside a string and an empty table. -/
def twoVariants : Manifest :=
  let cpu := (TableOf.empty false).insert "numpy" (.string "^1.16")
  let gpu := (TableOf.empty false).insert "cupy" (.string "")
  let conda := ((TableOf.empty false).insert "cpu" (.table cpu)).insert "gpu" (.table gpu)
  let tool := (TableOf.empty false).insert "conda" (.table (conda.insert "tpu" (.table (.empty true))))
  ⟨((TableOf.empty false).insert "tool" (.table tool)).insert "name" (.string "myia")⟩

example : twoVariants.sections = ["tool.conda.cpu", "tool.conda.gpu"] := by decide +kernel

theorem sections_exact_two_variants :
    (Node.table twoVariants.root).Built ∧ (Node.table twoVariants.root).Every PlainKeys ∧
    twoVariants.root.isLeaf = false ∧
    (∀ name, name ∈ twoVariants.sections ↔ ∃ path leaf,
      SectionPath.parse name = .ok path ∧ twoVariants.leafAt path = .ok leaf ∧
        leaf.isEmpty = false) ∧
    twoVariants.sections.Nodup ∧
    ∀ p ∈ twoVariants.sections, ∀ q ∈ twoVariants.sections,
      (twoVariants.sections.idxOf p < twoVariants.sections.idxOf q ↔
        twoVariants.root.DeclaredBefore (Text.pieces '.' p) (Text.pieces '.' q)) := by
  have hb : (Node.table twoVariants.root).Built := by
    have hcpu := (Node.Built.empty false).insert "numpy" (.string "^1.16")
    have hgpu := (Node.Built.empty false).insert "cupy" (.string "")
    have hconda := (((Node.Built.empty false).insert "cpu" hcpu).insert "gpu" hgpu).insert "tpu"
      (.empty true)
    exact ((Node.Built.empty false).insert "tool"
      ((Node.Built.empty false).insert "conda" hconda)).insert "name" (.string "myia")
  have hp : (Node.table twoVariants.root).Every PlainKeys := by
    simp [twoVariants, TableOf.insert, Entries.insert, TableOf.empty, PlainKeys, keys, Entries.keys]
  have hr : twoVariants.root.isLeaf = false := by decide
  exact ⟨hb, hp, hr, sections_exact twoVariants hb hp hr⟩

/-- What is listed below a root that is a leaf is a dependency, and no section. -/
theorem mem_entries_of_mem_sections {m : Manifest} (hr : m.root.isLeaf = true) {name : String}
    (h : name ∈ m.sections) : ∃ entry, (name, Node.table entry) ∈ m.root.entries := by
  obtain ⟨⟨key, node⟩, he, hname⟩ := List.mem_flatMap.mp h
  cases node with
  | string _ | other _ => cases hname
  | table entry =>
    have hd : entry.isDependency = true := List.all_eq_true.mp hr _ he
    rw [Node.sectionsAt_table, if_pos (isLeaf_of_isDependency hd)] at hname
    split at hname
    · cases hname
    · obtain rfl := List.mem_singleton.mp hname
      exact ⟨entry, he⟩

theorem leafAt_eq_error_of_flat {m : Manifest} (hr : m.root.isLeaf = true) {path : SectionPath}
    {entry : Table} (hdot : '.' ∉ path.text.toList)
    (hg : m.root.get? path.text = some (.table entry)) :
    m.leafAt path = .error (.noDependencies path.text path.text .entry) := by
  have hsegments : path.segments = [path.text] := Text.pieces_of_not_mem hdot
  have harrive : m.root.arrive path.text = .error (.found .entry) := by
    rw [arrive_of_table hg, if_pos hr]
  have hwalk : m.root.walk path.segments = .error (path.text, .found .entry) := by
    rw [hsegments, walk_singleton_eq_error_iff]
    exact ⟨rfl, harrive⟩
  rw [leafAt, hwalk]

/-- Every listed name is a section path, and it resolves unless the root is a leaf. Then none does:
each is refused as a single dependency. -/
theorem sections_resolve_unless_flat (m : Manifest) (hb : (Node.table m.root).Built)
    (hp : (Node.table m.root).Every PlainKeys) :
    ∀ name ∈ m.sections, ∃ path, SectionPath.parse name = .ok path ∧
      if m.root.isLeaf then m.leafAt path = .error (.noDependencies name name .entry)
      else ∃ leaf, m.leafAt path = .ok leaf := by
  intro name hname
  have hd := Node.built_iff.mp hb
  by_cases hr : m.root.isLeaf = true
  · obtain ⟨entry, he⟩ := mem_entries_of_mem_sections hr hname
    have hkeys := (Node.every_table_iff.mp hd).1
    obtain ⟨hne, hdot⟩ := (Node.every_table_iff.mp hp).1 name (List.mem_map_of_mem he)
    have hsegment : ∀ s ∈ Text.pieces '.' name, s ≠ "" := by
      rw [Text.pieces_of_not_mem hdot]
      exact List.forall_mem_singleton.mpr hne
    refine ⟨⟨name, hsegment⟩, SectionPath.parse_eq_ok_iff.mpr rfl, ?_⟩
    rw [if_pos hr]
    exact leafAt_eq_error_of_flat hr hdot (get?_of_mem hkeys he)
  · have hr' : m.root.isLeaf = false := by simpa using hr
    obtain ⟨path, leaf, hparse, hleaf, -⟩ := (mem_sections_iff hd hp hr').mp hname
    refine ⟨path, hparse, ?_⟩
    rw [if_neg hr]
    exact ⟨leaf, hleaf⟩

/-- One package in the form of a table. -/
def torchTable : Table := (TableOf.empty true).insert "version" (.string "1.4")

/-- A package beside a number, which makes a section of it. -/
def torchAndCount : Manifest :=
  ⟨((TableOf.empty false).insert "torch" (.table torchTable)).insert "count" (.other .integer)⟩

theorem sections_resolve_unless_flat_torch_and_count :
    (Node.table torchAndCount.root).Built ∧ (Node.table torchAndCount.root).Every PlainKeys ∧
    ∀ name ∈ torchAndCount.sections, ∃ path, SectionPath.parse name = .ok path ∧
      if torchAndCount.root.isLeaf then
        torchAndCount.leafAt path = .error (.noDependencies name name .entry)
      else ∃ leaf, torchAndCount.leafAt path = .ok leaf := by
  have hb : (Node.table torchAndCount.root).Built := by
    have htorch := (Node.Built.empty true).insert "version" (.string "1.4")
    exact ((Node.Built.empty false).insert "torch" htorch).insert "count" (.other .integer)
  have hp : (Node.table torchAndCount.root).Every PlainKeys := by
    simp [torchAndCount, torchTable, TableOf.insert, Entries.insert, TableOf.empty, PlainKeys, keys,
      Entries.keys]
  exact ⟨hb, hp, sections_resolve_unless_flat torchAndCount hb hp⟩

example : torchAndCount.sections = ["torch"] ∧ torchAndCount.root.isLeaf = false := by
  decide +kernel

/-- A manifest that is one flat list of dependencies. -/
def torchAlone : Manifest := ⟨(TableOf.empty true).insert "torch" (.table torchTable)⟩

theorem torchAlone_lists_a_dependency :
    (Node.table torchAlone.root).Built ∧ (Node.table torchAlone.root).Every PlainKeys ∧
    ¬∀ name ∈ torchAlone.sections, ∃ path leaf,
      SectionPath.parse name = .ok path ∧ torchAlone.leafAt path = .ok leaf := by
  have htorch := (Node.Built.empty true).insert "version" (.string "1.4")
  have hp : (Node.table torchAlone.root).Every PlainKeys := by
    simp [torchAlone, torchTable, TableOf.insert, Entries.insert, TableOf.empty, PlainKeys, keys,
      Entries.keys]
  refine ⟨(Node.Built.empty true).insert "torch" htorch, hp, fun h => ?_⟩
  have hlisted : "torch" ∈ torchAlone.sections := by decide +kernel
  obtain ⟨path, leaf, hparse, hleaf⟩ := h "torch" hlisted
  have htext : path.text = "torch" := SectionPath.parse_eq_ok_iff.mp hparse
  have hdot : '.' ∉ path.text.toList := by
    rw [htext]
    decide
  have hget : torchAlone.root.get? path.text = some (.table torchTable) := by
    rw [htext]
    rfl
  have hrefused := leafAt_eq_error_of_flat (by decide) hdot hget
  rw [hleaf] at hrefused
  cases hrefused

end Manifest

end EnvSpec
