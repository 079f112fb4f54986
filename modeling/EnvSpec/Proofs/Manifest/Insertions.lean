import Mathlib.Data.Finset.Card
import Mathlib.Data.List.Induction
import EnvSpec.Manifest.Node

/-!
# Tables as the record of their insertions

A table is only ever filled by insertions, and a key may be inserted again. What a table holds then
follows from the list of insertions alone: a key keeps the place of its first insertion and has the
node of its last. `Entries.WrittenBy` says so of any entries. One insertion keeps it, so it holds
after every run, and what is asked of a table is read off the last insertions of its keys.
-/
namespace EnvSpec

namespace Entries

section LastInsertion
variable {κ α : Type} {steps : List (κ × α)} {key : κ} {value : α}

/-- The last of the `steps` that insert `key` inserts `value`. -/
def LastInserted (steps : List (κ × α)) (key : κ) (value : α) : Prop :=
  ∃ before after, steps = before ++ (key, value) :: after ∧ key ∉ keys after

theorem keys_concat (steps : List (κ × α)) (step : κ × α) :
    keys (steps ++ [step]) = keys steps ++ [step.1] := by
  rw [keys, List.map_append, List.map_singleton, keys]

/-- The last insertion is the first one that is found from behind. -/
theorem lastInserted_iff_get?_reverse [DecidableEq κ] :
    LastInserted steps key value ↔ get? steps.reverse key = some value := by
  rw [get?, List.lookup_eq_some_iff]
  constructor
  · rintro ⟨before, after, rfl, hlast⟩
    refine ⟨after.reverse, before.reverse, by simp, fun step hstep => ?_⟩
    have hmem : step.1 ∈ keys after := List.mem_map_of_mem (List.mem_reverse.mp hstep)
    rw [bne_iff_ne]
    rintro rfl
    exact hlast hmem
  · rintro ⟨behind, front, hsteps, hbehind⟩
    refine ⟨front.reverse, behind.reverse, ?_, fun hmem => ?_⟩
    · rw [List.reverse_eq_iff.mp hsteps]
      simp
    · obtain ⟨step, hstep, rfl⟩ := List.mem_map.mp hmem
      exact bne_iff_ne.mp (hbehind step (List.mem_reverse.mp hstep)) rfl

/-- A new step is the last one for its own key and changes nothing for the others. -/
theorem lastInserted_concat_iff [DecidableEq κ] {step : κ × α} :
    LastInserted (steps ++ [step]) key value ↔
      if key = step.1 then step.2 = value else LastInserted steps key value := by
  rw [lastInserted_iff_get?_reverse, lastInserted_iff_get?_reverse, List.reverse_append,
    List.reverse_singleton, List.singleton_append, get?_cons]
  split
  · exact Option.some_inj
  · exact Iff.rfl

end LastInsertion

variable {κ α : Type} [DecidableEq κ]

/-- The entries have every inserted key at the place of its first insertion, with the value of its
last. -/
structure WrittenBy (entries : Entries κ α) (steps : List (κ × α)) : Prop where
  mem_keys_iff : ∀ key, key ∈ keys entries ↔ key ∈ keys steps
  order : (keys entries).Pairwise fun a b => (keys steps).idxOf a < (keys steps).idxOf b
  get?_eq_some_iff : ∀ key value, get? entries key = some value ↔ LastInserted steps key value

namespace WrittenBy

variable {entries : Entries κ α} {steps : List (κ × α)}

theorem nil : WrittenBy ([] : Entries κ α) [] where
  mem_keys_iff _ := Iff.rfl
  order := List.Pairwise.nil
  get?_eq_some_iff key value := by
    rw [lastInserted_iff_get?_reverse, List.reverse_nil]

/-- A key that is already there stays where it is, and a new one goes behind all others: it was not
inserted before, so they were. -/
theorem insert (h : WrittenBy entries steps) (key : κ) (value : α) :
    WrittenBy (insert entries key value) (steps ++ [(key, value)]) where
  mem_keys_iff k := by
    rw [keys_insert, keys_concat, List.mem_append, List.mem_singleton, ← h.mem_keys_iff]
    split
    · next hkey =>
      exact ⟨Or.inl, fun hk => hk.elim id fun he => he ▸ hkey⟩
    · rw [List.mem_append, List.mem_singleton]
  order := by
    have hplace {k : κ} (hk : k ∈ keys entries) :
        (keys steps ++ [key]).idxOf k = (keys steps).idxOf k :=
      List.idxOf_append_of_mem ((h.mem_keys_iff k).mp hk)
    have hkept : (keys entries).Pairwise fun a b =>
        (keys steps ++ [key]).idxOf a < (keys steps ++ [key]).idxOf b :=
      h.order.imp_of_mem fun ha hb hlt => by rwa [hplace ha, hplace hb]
    rw [keys_concat, keys_insert]
    split
    · exact hkept
    · next hkey =>
      refine List.pairwise_append.mpr ⟨hkept, List.pairwise_singleton _ _, fun a ha b hb => ?_⟩
      obtain rfl := List.mem_singleton.mp hb
      have hnew : b ∉ keys steps := fun hb => hkey ((h.mem_keys_iff b).mpr hb)
      calc (keys steps ++ [b]).idxOf a = (keys steps).idxOf a := hplace ha
        _ < (keys steps).length := List.idxOf_lt_length_of_mem ((h.mem_keys_iff a).mp ha)
        _ ≤ (keys steps ++ [b]).idxOf b := by
          rw [List.idxOf_append_of_notMem hnew]
          exact Nat.le_add_right _ _
  get?_eq_some_iff k v := by
    rw [get?_insert, lastInserted_concat_iff]
    split
    · exact Option.some_inj
    · exact h.get?_eq_some_iff k v

theorem nodup_keys (h : WrittenBy entries steps) : (keys entries).Nodup := by
  refine h.order.imp fun hlt he => ?_
  rw [he] at hlt
  exact Nat.lt_irrefl _ hlt

theorem mem_iff (h : WrittenBy entries steps) {entry : κ × α} :
    entry ∈ entries ↔ LastInserted steps entry.1 entry.2 := by
  rw [← h.get?_eq_some_iff]
  exact ⟨get?_of_mem h.nodup_keys, mem_of_get?⟩

theorem get?_eq_none_iff (h : WrittenBy entries steps) {key : κ} :
    get? entries key = none ↔ key ∉ keys steps := by
  rw [← h.mem_keys_iff, Entries.mem_keys_iff, Option.eq_none_iff_forall_ne_some]
  exact not_exists.symm

theorem length_eq (h : WrittenBy entries steps) : entries.length = (keys steps).toFinset.card := by
  rw [← List.toFinset.ext h.mem_keys_iff, List.toFinset_card_of_nodup h.nodup_keys, keys,
    List.length_map]

theorem eq_nil_iff (h : WrittenBy entries steps) : entries = [] ↔ steps = [] := by
  have hkeys : keys entries = [] ↔ keys steps = [] := by
    rw [List.eq_nil_iff_forall_not_mem, List.eq_nil_iff_forall_not_mem]
    exact forall_congr' fun key => not_congr (h.mem_keys_iff key)
  rwa [keys, keys, List.map_eq_nil_iff, List.map_eq_nil_iff] at hkeys

/-- What holds of every entry is a property of the last insertions. -/
theorem forall_mem_iff (h : WrittenBy entries steps) {P : κ × α → Prop} :
    (∀ entry ∈ entries, P entry) ↔ ∀ key value, LastInserted steps key value → P (key, value) := by
  simp only [h.mem_iff, Prod.forall]

end WrittenBy

end Entries

namespace TableOf

/-- The table that `steps` fill, in their order, from an empty one. -/
def ofInsertions (inline : Bool) (steps : List (String × Node)) : Table :=
  steps.foldl (fun t step => t.insert step.1 step.2) (empty inline)

theorem ofInsertions_concat (inline : Bool) (steps : List (String × Node)) (step : String × Node) :
    ofInsertions inline (steps ++ [step]) = (ofInsertions inline steps).insert step.1 step.2 := by
  rw [ofInsertions, List.foldl_append, List.foldl_cons, List.foldl_nil, ofInsertions]

theorem inline_ofInsertions (inline : Bool) (steps : List (String × Node)) :
    (ofInsertions inline steps).inline = inline := by
  induction steps using List.reverseRecOn with
  | nil => rfl
  | append_singleton steps step ih =>
    rw [ofInsertions_concat]
    exact ih

/-- Every run of insertions leaves what its steps have written, whatever was overwritten between. -/
theorem writtenBy_ofInsertions (inline : Bool) (steps : List (String × Node)) :
    Entries.WrittenBy (ofInsertions inline steps).entries steps := by
  -- From the end of the run: there the step lemma applies to what all earlier steps have left.
  induction steps using List.reverseRecOn with
  | nil => exact .nil
  | append_singleton steps step ih =>
    rw [ofInsertions_concat]
    exact ih.insert step.1 step.2

section Filled
variable (inline : Bool) (steps : List (String × Node))

theorem isLeaf_ofInsertions_iff : (ofInsertions inline steps).isLeaf = true ↔
    ∀ key node, Entries.LastInserted steps key node → node.isDependency = true := by
  rw [isLeaf, List.all_eq_true]
  exact (writtenBy_ofInsertions inline steps).forall_mem_iff

theorem isDependency_ofInsertions_iff : (ofInsertions inline steps).isDependency = true ↔
    inline = true ∧ steps ≠ [] ∧ ∀ key node, Entries.LastInserted steps key node →
      (key = "version" ∨ key = "channel") ∧ ∃ text, node = .string text := by
  have h := writtenBy_ofInsertions inline steps
  rw [isDependency_iff, inline_ofInsertions, ne_eq, h.eq_nil_iff, h.forall_mem_iff]
  simp only [entryKeys, List.mem_pair, ne_eq]

end Filled

/-- A table that was filled by insertions, however often a key was inserted, is an ordered map. Its
keys stand in the order of their first insertion, each has the node of its last, and these last
nodes alone decide whether the table is a leaf or describes one dependency. -/
theorem ofInsertions_ordered_map (inline : Bool) (steps : List (String × Node)) :
    let t := ofInsertions inline steps
    let inserted := Entries.keys steps
    t.keys.Nodup ∧ (∀ key, key ∈ t.keys ↔ key ∈ inserted) ∧
    t.keys.Pairwise (fun a b => inserted.idxOf a < inserted.idxOf b) ∧
    (∀ key node, t.get? key = some node ↔ Entries.LastInserted steps key node) ∧
    (∀ key, t.get? key = none ↔ key ∉ inserted) ∧
    (∀ key node, (key, node) ∈ t.entries ↔ t.get? key = some node) ∧
    t.size = inserted.toFinset.card ∧
    (t.isLeaf = true ↔
      ∀ key node, Entries.LastInserted steps key node → node.isDependency = true) ∧
    (t.isDependency = true ↔ inline = true ∧ steps ≠ [] ∧
      ∀ key node, Entries.LastInserted steps key node →
        (key = "version" ∨ key = "channel") ∧ ∃ text, node = .string text) ∧
    ∀ key node other, other ≠ key → (t.insert key node).get? other = t.get? other := by
  intro t inserted
  have h : Entries.WrittenBy t.entries steps := writtenBy_ofInsertions inline steps
  refine ⟨h.nodup_keys, h.mem_keys_iff, h.order, h.get?_eq_some_iff, fun key => h.get?_eq_none_iff,
    fun key node => ?_, h.length_eq, isLeaf_ofInsertions_iff inline steps,
    isDependency_ofInsertions_iff inline steps, fun key node other hne => ?_⟩
  · rw [get?, h.get?_eq_some_iff, h.mem_iff]
  · rw [get?_insert, if_neg hne]

/-- The key of a number is inserted again, with a string. -/
def repeatedKey : List (String × Node) :=
  [("channel", .other .number), ("version", .string "1.4"), ("channel", .string "pip")]

theorem ofInsertions_ordered_map_repeated_key :
    let t := ofInsertions true repeatedKey
    t.keys = ["channel", "version"] ∧ t.get? "channel" = some (.string "pip") ∧ t.size = 2 ∧
    t.isDependency = true ∧ "version" ≠ "channel" ∧
    (t.insert "channel" (.string "standard")).get? "version" = t.get? "version" := by
  intro t
  obtain ⟨-, -, -, hlast, -, -, hsize, -, -, hother⟩ := ofInsertions_ordered_map true repeatedKey
  have hchannel : Entries.LastInserted repeatedKey "channel" (.string "pip") :=
    ⟨repeatedKey.take 2, [], rfl, List.not_mem_nil⟩
  have hne : "version" ≠ "channel" := by decide
  exact ⟨by rfl, (hlast _ _).mpr hchannel, hsize, by rfl, hne, hother _ _ _ hne⟩

end TableOf

end EnvSpec
