import EnvSpec.Proofs.Constraint.Written
import EnvSpec.Proofs.Manifest.Tree
import EnvSpec.Proofs.Section.Walk
import EnvSpec.Proofs.Traversal
import EnvSpec.Section.Records

/-!
# What extraction gives

The entries of a section become records one after the other, and a bad one fails the whole section.
Here an entry is judged by what it writes: its key, its version text and the word for its channel.
All three have to be readable, and the first that is not is the fault. An entry that is no version
at all is a fault too, but it does not occur: below a leaf every entry is a dependency.
-/
namespace EnvSpec

/-- The version text of an entry, empty where a table has none. -/
def Node.versionText : Node → String
  | .string version => version
  | .table t => ((t.get? "version").bind asString?).getD ""
  | .other _ => ""

/-- The word for the channel of an entry, which only a table can have. -/
def Node.channelWord? : Node → Option String
  | .table t => (t.get? "channel").bind asString?
  | _ => none

/-- The channel that a word stands for, and the standard one if there is no word. -/
def Channel.ofWord? : Option String → Except UnknownWord Channel
  | none => .ok standard
  | some word => parse word

theorem Channel.parse_eq_error_iff {word : String} {unknown : UnknownWord} :
    parse word = .error unknown ↔
      (∀ channel, parse word ≠ .ok channel) ∧ unknown = ⟨.channel, word⟩ := by
  unfold parse
  split <;> simp [eq_comm]

theorem Channel.ofWord?_eq_error_iff {word? : Option String} {unknown : UnknownWord} :
    ofWord? word? = .error unknown ↔
      ∃ word, word? = some word ∧ (∀ channel, parse word ≠ .ok channel) ∧
        unknown = ⟨.channel, word⟩ := by
  cases word? with
  | none => simp [ofWord?]
  | some word => simp [ofWord?, parse_eq_error_iff]

namespace Record

/-- All that an entry writes can be read. -/
structure Acceptable (name : String) (node : Node) : Prop where
  named : Text.trim name ≠ ""
  channel : ∀ word, node.channelWord? = some word → ∃ channel, Channel.parse word = .ok channel
  constraint : ∃ constraint, Constraint.parse? node.versionText = some constraint

/-- The record has the name, the constraint and the channel that the entry writes. -/
structure IsWritten (name : String) (node : Node) (r : Record) : Prop where
  name : r.name = name
  text : r.constraint.text = node.versionText
  constraint : Constraint.parse? node.versionText = some r.constraint
  channel : Channel.ofWord? node.channelWord? = .ok r.channel

/-- What is wrong with an entry: the first of the name, the channel and the constraint that cannot
be read. -/
inductive FirstFault (name : String) (node : Node) : EntryFault → Prop where
  | name (blank : Text.trim name = "") : FirstFault name node .blankName
  | channel {word : String} (named : Text.trim name ≠ "") (written : node.channelWord? = some word)
      (unknown : ∀ channel, Channel.parse word ≠ .ok channel) :
      FirstFault name node (.unknownChannel ⟨.channel, word⟩)
  | constraint (named : Text.trim name ≠ "")
      (known : ∀ word, node.channelWord? = some word → ∃ channel, Channel.parse word = .ok channel)
      (unreadable : Constraint.parse? node.versionText = none) :
      FirstFault name node (.badConstraint node.versionText)

theorem versionAndChannel_of_isDependency {node : Node} (h : node.isDependency = true) :
    versionAndChannel node =
      ((Channel.ofWord? node.channelWord?).map (node.versionText, ·)).mapError .unknownChannel := by
  cases node with
  | string _ => rfl
  | other _ => cases h
  | table t =>
    have ht : t.isDependency = true := h
    simp only [versionAndChannel, ht, if_true, Node.channelWord?, Node.versionText]
    cases (t.get? "channel").bind Node.asString? with
    | none => rfl
    | some word => cases hword : Channel.parse word <;> simp [Channel.ofWord?, hword] <;> rfl

/-- That an entry is no version is not said of a dependency. -/
theorem versionAndChannel_ne_notAVersion {node : Node} (h : node.isDependency = true)
    (found : NodeKind) : versionAndChannel node ≠ .error (.notAVersion found) := by
  rw [versionAndChannel_of_isDependency h]
  intro he
  obtain ⟨unknown, -, hfault⟩ := mapError_eq_error_iff.mp he
  cases hfault

section Entry
variable {name : String} {node : Node} (h : node.isDependency = true)
include h

theorem ofEntry_eq :
    ofEntry name node =
      if Text.trim name = "" then .error .blankName
      else match Channel.ofWord? node.channelWord?, Constraint.parse? node.versionText with
        | .error unknown, _ => .error (.unknownChannel unknown)
        | .ok _, none => .error (.badConstraint node.versionText)
        | .ok channel, some constraint => .ok ⟨name, constraint, channel⟩ := by
  simp only [ofEntry, Text.isAllBlank_iff, versionAndChannel_of_isDependency h]
  split
  · rfl
  · cases Channel.ofWord? node.channelWord? with
    | error _ => rfl
    | ok channel =>
      simp only [Except.map, Except.mapError, bind, Except.bind]
      cases Constraint.parse? node.versionText <;> rfl

theorem ofEntry_eq_ok_iff {r : Record} :
    ofEntry name node = .ok r ↔ Text.trim name ≠ "" ∧ IsWritten name node r := by
  rw [ofEntry_eq h]
  constructor
  · intro he
    split at he
    · cases he
    · next hnamed =>
      split at he
      · cases he
      · cases he
      · next channel constraint hchannel hconstraint =>
        obtain rfl := Except.ok.inj he
        exact ⟨hnamed, rfl, (Constraint.parse?_eq_some_iff.mp hconstraint).1, hconstraint, hchannel⟩
  · rintro ⟨hnamed, hname, -, hconstraint, hchannel⟩
    rw [if_neg hnamed, hchannel, hconstraint]
    subst hname
    rfl

theorem ofEntry_eq_error_iff {fault : EntryFault} :
    ofEntry name node = .error fault ↔ FirstFault name node fault := by
  rw [ofEntry_eq h]
  constructor
  · intro he
    split at he
    · next hblank =>
      obtain rfl := Except.error.inj he
      exact .name hblank
    · next hnamed =>
      split at he
      · next unknown hchannel =>
        obtain ⟨word, hword, hunknown, rfl⟩ := Channel.ofWord?_eq_error_iff.mp hchannel
        obtain rfl := Except.error.inj he
        exact .channel hnamed hword hunknown
      · next channel hchannel hconstraint =>
        obtain rfl := Except.error.inj he
        refine .constraint hnamed (fun word hword => ?_) hconstraint
        rw [hword] at hchannel
        exact ⟨channel, hchannel⟩
      · cases he
  · intro hfault
    cases hfault with
    | name hblank => rw [if_pos hblank]
    | @channel word hnamed hword hunknown =>
      have hchannel : Channel.ofWord? node.channelWord? = .error ⟨.channel, word⟩ :=
        Channel.ofWord?_eq_error_iff.mpr ⟨word, hword, hunknown, rfl⟩
      rw [if_neg hnamed, hchannel]
    | constraint hnamed hknown hunreadable =>
      rw [if_neg hnamed, hunreadable]
      cases hchannel : Channel.ofWord? node.channelWord? with
      | error unknown =>
        obtain ⟨word, hword, hunknown, -⟩ := Channel.ofWord?_eq_error_iff.mp hchannel
        obtain ⟨channel, hparse⟩ := hknown word hword
        exact absurd hparse (hunknown channel)
      | ok _ => rfl

/-- An entry has a record exactly if no check fails. -/
theorem exists_ofEntry_eq_ok_iff : (∃ r, ofEntry name node = .ok r) ↔ Acceptable name node := by
  constructor
  · rintro ⟨r, hr⟩
    obtain ⟨hnamed, hwritten⟩ := (ofEntry_eq_ok_iff h).mp hr
    refine ⟨hnamed, fun word hword => ?_, _, hwritten.constraint⟩
    have hchannel := hwritten.channel
    rw [hword] at hchannel
    exact ⟨_, hchannel⟩
  · intro hacceptable
    cases he : ofEntry name node with
    | ok r => exact ⟨r, rfl⟩
    | error fault =>
      cases (ofEntry_eq_error_iff h).mp he with
      | name hblank => exact absurd hblank hacceptable.named
      | channel _ hword hunknown =>
        obtain ⟨channel, hparse⟩ := hacceptable.channel _ hword
        exact absurd hparse (hunknown channel)
      | constraint _ _ hunreadable =>
        obtain ⟨constraint, hread⟩ := hacceptable.constraint
        rw [hunreadable] at hread
        cases hread

theorem ofSectionEntry_eq_ok_iff {path : String} {r : Record} :
    ofSectionEntry path name node = .ok r ↔ Text.trim name ≠ "" ∧ IsWritten name node r := by
  rw [ofSectionEntry, mapError_eq_ok_iff, ofEntry_eq_ok_iff h]

theorem exists_ofSectionEntry_eq_ok_iff {path : String} :
    (∃ r, ofSectionEntry path name node = .ok r) ↔ Acceptable name node := by
  rw [← exists_ofEntry_eq_ok_iff h]
  exact exists_congr fun r => mapError_eq_ok_iff

/-- In a section, a fault is reported with the section and the entry. -/
theorem ofSectionEntry_eq_error_iff {path : String} {error : ManifestError} :
    ofSectionEntry path name node = .error error ↔
      ∃ fault, FirstFault name node fault ∧ error = .badEntry path name fault := by
  rw [ofSectionEntry, mapError_eq_error_iff]
  exact exists_congr fun fault => and_congr_left' (ofEntry_eq_error_iff h)

end Entry

end Record

theorem Node.Every.of_leads {P : Table → Prop} {t leaf : Table} {path : List String}
    (h : (Node.table t).Every P) (hleads : TableOf.Leads t path leaf) :
    (Node.table leaf).Every P := by
  induction hleads with
  | direct _ hg _ => exact h.of_get? hg
  | through _ hg _ ih => exact ih (h.of_get? hg)

namespace Manifest

theorem recordsAt_text (m : Manifest) (path : SectionPath) :
    m.recordsAt path.text = m.records path := by
  rw [recordsAt, SectionPath.parse_eq_ok_iff.mpr rfl]
  rfl

/-- The entries of a section are read one after the other. -/
theorem recordsAt_eq_mapM {m : Manifest} {path : SectionPath} {leaf : Table}
    (h : m.leafAt path = .ok leaf) :
    m.recordsAt path.text =
      leaf.entries.mapM fun e => Record.ofSectionEntry path.text e.1 e.2 := by
  rw [recordsAt_text, records, h]
  rfl

section Records
variable {m : Manifest} {path : SectionPath} {leaf : Table} (h : m.leafAt path = .ok leaf)
include h

theorem isDependency_of_leafAt : ∀ e ∈ leaf.entries, e.2.isDependency = true :=
  List.all_eq_true.mp (leafAt_eq_ok_iff.mp h).isLeaf

theorem exists_recordsAt_eq_ok_iff :
    (∃ records, m.recordsAt path.text = .ok records) ↔
      ∀ e ∈ leaf.entries, Record.Acceptable e.1 e.2 := by
  rw [recordsAt_eq_mapM h, exists_mapM_eq_ok_iff]
  exact forall₂_congr fun e he =>
    Record.exists_ofSectionEntry_eq_ok_iff (isDependency_of_leafAt h e he)

/-- Each record is the one that its entry writes. -/
theorem forall₂_of_recordsAt {records : List Record} (hr : m.recordsAt path.text = .ok records) :
    List.Forall₂ (fun e r => Text.trim e.1 ≠ "" ∧ Record.IsWritten e.1 e.2 r)
      leaf.entries records := by
  rw [recordsAt_eq_mapM h, mapM_eq_ok_iff] at hr
  have hboth := (List.forall₂_and_left _ _).mpr ⟨isDependency_of_leafAt h, hr⟩
  exact hboth.imp fun e r ⟨hd, hread⟩ => (Record.ofSectionEntry_eq_ok_iff hd).mp hread

theorem map_name_of_recordsAt {records : List Record}
    (hr : m.recordsAt path.text = .ok records) : records.map Record.name = leaf.keys := by
  have hnames : List.Forall₂ (fun e r => e.1 = Record.name r) leaf.entries records :=
    (forall₂_of_recordsAt h hr).imp fun e r hw => hw.2.name.symm
  have heq : List.Forall₂ Eq (leaf.entries.map Prod.fst) (records.map Record.name) :=
    List.forall₂_map_left_iff.mpr (List.forall₂_map_right_iff.mpr hnames)
  rw [List.forall₂_eq_eq_eq] at heq
  exact heq.symm

/-- The first entry that is not acceptable is named, with its first fault. -/
theorem recordsAt_eq_error_iff {error : ManifestError} :
    m.recordsAt path.text = .error error ↔
      ∃ before e after fault, leaf.entries = before ++ e :: after ∧
        (∀ b ∈ before, Record.Acceptable b.1 b.2) ∧ Record.FirstFault e.1 e.2 fault ∧
        error = .badEntry path.text e.1 fault := by
  have hd := isDependency_of_leafAt h
  rw [recordsAt_eq_mapM h, mapM_eq_error_iff]
  constructor
  · rintro ⟨before, e, after, hsplit, hbefore, he⟩
    rw [hsplit, List.forall_mem_append, List.forall_mem_cons] at hd
    obtain ⟨hdbefore, hde, -⟩ := hd
    obtain ⟨fault, hfault, rfl⟩ := (Record.ofSectionEntry_eq_error_iff hde).mp he
    refine ⟨before, e, after, fault, hsplit, fun b hb => ?_, hfault, rfl⟩
    exact (Record.exists_ofSectionEntry_eq_ok_iff (hdbefore b hb)).mp (hbefore b hb)
  · rintro ⟨before, e, after, fault, hsplit, hbefore, hfault, rfl⟩
    rw [hsplit, List.forall_mem_append, List.forall_mem_cons] at hd
    obtain ⟨hdbefore, hde, -⟩ := hd
    refine ⟨before, e, after, hsplit, fun b hb => ?_,
      (Record.ofSectionEntry_eq_error_iff hde).mpr ⟨fault, hfault, rfl⟩⟩
    exact (Record.exists_ofSectionEntry_eq_ok_iff (hdbefore b hb)).mpr (hbefore b hb)

end Records

/-- Only a section that resolves is extracted. -/
theorem exists_leafAt_of_recordsAt {m : Manifest} {name : String} {found : List Record}
    (h : m.recordsAt name = .ok found) :
    ∃ path leaf, path.text = name ∧ m.leafAt path = .ok leaf := by
  unfold recordsAt at h
  cases hparse : SectionPath.parse name with
  | error _ =>
    rw [hparse] at h
    cases h
  | ok path =>
    rw [hparse] at h
    change m.records path = .ok found at h
    unfold records at h
    cases hleaf : m.leafAt path with
    | error _ =>
      rw [hleaf] at h
      cases h
    | ok leaf => exact ⟨path, leaf, SectionPath.parse_eq_ok_iff.mp hparse, hleaf⟩

/-- The constraints of extracted records were read from texts. -/
theorem readable_of_recordsAt {m : Manifest} {name : String} {records : List Record}
    (h : m.recordsAt name = .ok records) :
    ∀ r ∈ records, ∀ c ∈ r.constraint.clauses, c.Readable := by
  obtain ⟨path, leaf, rfl, hleaf⟩ := exists_leafAt_of_recordsAt h
  intro r hr
  obtain ⟨e, -, -, hwritten⟩ := exists_mem_of_forall₂ (forall₂_of_recordsAt hleaf h) r hr
  exact Constraint.readable_of_parse? hwritten.constraint

/-- A section is extracted as a whole or not at all. If every entry is acceptable, the records are
those that the entries write, in their order and under their names. Otherwise the error names the
first entry that is not, with the first thing wrong with it, and this is never that the entry is no
version. -/
theorem recordsAt_all_or_nothing (m : Manifest) (hb : (Node.table m.root).Built)
    (path : SectionPath) (leaf : Table) (h : m.leafAt path = .ok leaf) :
    ((∃ records, m.recordsAt path.text = .ok records) ↔
      ∀ e ∈ leaf.entries, Record.Acceptable e.1 e.2) ∧
    (∀ records, m.recordsAt path.text = .ok records →
      records.map Record.name = leaf.keys ∧ leaf.keys.Nodup ∧
        List.Forall₂ (fun e r => Record.IsWritten e.1 e.2 r) leaf.entries records) ∧
    (∀ error, m.recordsAt path.text = .error error ↔
      ∃ before e after fault, leaf.entries = before ++ e :: after ∧
        (∀ b ∈ before, Record.Acceptable b.1 b.2) ∧ Record.FirstFault e.1 e.2 fault ∧
        error = .badEntry path.text e.1 fault) ∧
    ∀ e ∈ leaf.entries, ∀ found, Record.versionAndChannel e.2 ≠ .error (.notAVersion found) := by
  have hdistinct := (Node.built_iff.mp hb).of_leads (leafAt_eq_ok_iff.mp h)
  have hkeys : leaf.keys.Nodup := (Node.every_table_iff.mp hdistinct).1
  refine ⟨exists_recordsAt_eq_ok_iff h, fun records hr => ?_, fun error => recordsAt_eq_error_iff h,
    fun e he found => ?_⟩
  · exact ⟨map_name_of_recordsAt h hr, hkeys, (forall₂_of_recordsAt h hr).imp fun _ _ hw => hw.2⟩
  · exact Record.versionAndChannel_ne_notAVersion (isDependency_of_leafAt h e he) found

/-- A section with a bad channel after two good entries. -/
def threeEntries : Table :=
  let torch := ((TableOf.empty true).insert "channel" (.string "PyPI")).insert "version" (.string "^1.4")
  let tvm := (TableOf.empty true).insert "channel" (.string "npm")
  (((TableOf.empty false).insert "numpy" (.string ">=1.16, <2")).insert "torch" (.table torch)).insert
    "tvm" (.table tvm)

def threeEntriesBelowDeps : Manifest := ⟨(TableOf.empty false).insert "deps" (.table threeEntries)⟩

def depsPath : SectionPath := ⟨"deps", by decide⟩

theorem recordsAt_all_or_nothing_three_entries :
    (Node.table threeEntriesBelowDeps.root).Built ∧
    threeEntriesBelowDeps.leafAt depsPath = .ok threeEntries ∧
    ((∃ records, threeEntriesBelowDeps.recordsAt "deps" = .ok records) ↔
      ∀ e ∈ threeEntries.entries, Record.Acceptable e.1 e.2) ∧
    (∀ records, threeEntriesBelowDeps.recordsAt "deps" = .ok records →
      records.map Record.name = threeEntries.keys ∧ threeEntries.keys.Nodup ∧
        List.Forall₂ (fun e r => Record.IsWritten e.1 e.2 r) threeEntries.entries records) ∧
    (∀ error, threeEntriesBelowDeps.recordsAt "deps" = .error error ↔
      ∃ before e after fault, threeEntries.entries = before ++ e :: after ∧
        (∀ b ∈ before, Record.Acceptable b.1 b.2) ∧ Record.FirstFault e.1 e.2 fault ∧
        error = .badEntry "deps" e.1 fault) ∧
    ∀ e ∈ threeEntries.entries, ∀ found,
      Record.versionAndChannel e.2 ≠ .error (.notAVersion found) := by
  have htorch := ((Node.Built.empty true).insert "channel" (.string "PyPI")).insert "version"
    (.string "^1.4")
  have htvm := (Node.Built.empty true).insert "channel" (.string "npm")
  have hentries : (Node.table threeEntries).Built :=
    (((Node.Built.empty false).insert "numpy" (.string ">=1.16, <2")).insert "torch" htorch).insert
      "tvm" htvm
  have hb : (Node.table threeEntriesBelowDeps.root).Built :=
    (Node.Built.empty false).insert "deps" hentries
  have hleaf : threeEntriesBelowDeps.leafAt depsPath = .ok threeEntries := by rfl
  exact ⟨hb, hleaf, recordsAt_all_or_nothing threeEntriesBelowDeps hb depsPath threeEntries hleaf⟩

example : threeEntriesBelowDeps.recordsAt "deps" =
    .error (.badEntry "deps" "tvm" (.unknownChannel ⟨.channel, "npm"⟩)) := by rfl

end Manifest

end EnvSpec
