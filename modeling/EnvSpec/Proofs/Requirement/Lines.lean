import Mathlib.Algebra.Ring.Nat
import EnvSpec.Proofs.Requirement.Conda
import EnvSpec.Proofs.Requirement.Pip
import EnvSpec.Proofs.Section.Extraction

/-!
# One line for each record

The text for a package manager is meant to have one line for each dependency. A version cannot break
a line, because no clause is read with a blank in it. A name can: a key between quotes holds any
characters, and all that is asked of it is that it is not blank. Each line break in a key gives one
line more than there are records.
-/
namespace EnvSpec

theorem Constraint.unblank_specifier (target : Target) {c : Constraint}
    (h : ∀ clause ∈ c.clauses, clause.Readable) : Text.Unblank (c.specifier target).toList := by
  cases target with
  | conda => exact unblank_specifier_conda h
  | pip => exact unblank_specifier_pip h

namespace Record

/-- The line breaks in a line are those in the name. -/
theorem count_break_line {r : Record} (h : ∀ c ∈ r.constraint.clauses, c.Readable)
    (target : Target) : (r.line target).toList.count '\n' = r.name.toList.count '\n' := by
  have hspecifier : '\n' ∉ (r.constraint.specifier target).toList := by
    intro hc
    have hblank := Constraint.unblank_specifier target h '\n' hc
    exact absurd hblank (by decide)
  rw [line, String.toList_append, List.count_append, List.count_eq_zero.mpr hspecifier,
    Nat.add_zero]

theorem count_break_linesText (target : Target) {records : List Record}
    (h : ∀ r ∈ records, ∀ c ∈ r.constraint.clauses, c.Readable) :
    (linesText target records).toList.count '\n' =
      records.length + (records.map fun r => r.name.toList.count '\n').sum := by
  induction records with
  | nil => rfl
  | cons r records ih =>
    obtain ⟨hr, hrest⟩ := List.forall_mem_cons.mp h
    have hfirst := count_break_line hr target
    have hbreak : "\n".toList.count '\n' = 1 := by decide
    have hcons : linesText target (r :: records) = r.line target ++ "\n" ++ linesText target records :=
      String.join_cons
    rw [hcons, String.toList_append, String.toList_append, List.count_append, List.count_append,
      ih hrest, hfirst, hbreak, List.length_cons, List.map_cons, List.sum_cons]
    omega

end Record

namespace Manifest

/-- The text of extracted records has one line for each of them and one more for each line break in
a key. It splits into the lines of the records, in their order, exactly if no key has any. -/
theorem linesText_splits_iff {m : Manifest} {name : String} {records : List Record}
    (h : m.recordsAt name = .ok records) (target : Target) :
    (Text.pieces '\n' (Record.linesText target records)).length =
      records.length + (records.map fun r => r.name.toList.count '\n').sum + 1 ∧
    (Text.pieces '\n' (Record.linesText target records) = records.map (Record.line target) ++ [""] ↔
      ∀ r ∈ records, '\n' ∉ r.name.toList) := by
  have hreadable := readable_of_recordsAt h
  refine ⟨?_, ?_⟩
  · rw [Text.length_pieces, Record.count_break_linesText target hreadable]
  · have hname : ∀ r ∈ records, ('\n' ∉ (r.line target).toList ↔ '\n' ∉ r.name.toList) := by
      intro r hr
      rw [← List.count_eq_zero, ← List.count_eq_zero,
        Record.count_break_line (hreadable r hr) target]
    constructor
    · intro hsplit r hr
      have hmem : r.line target ∈ Text.pieces '\n' (Record.linesText target records) := by
        rw [hsplit]
        exact List.mem_append_left _ (List.mem_map_of_mem hr)
      exact (hname r hr).mp (Text.not_mem_of_mem_pieces hmem)
    · intro hbreak
      have hlines : ∀ l ∈ records.map (Record.line target), '\n' ∉ l.toList :=
        List.forall_mem_map.mpr fun r hr => (hname r hr).mpr (hbreak r hr)
      rw [← Text.pieces_join_lines hlines, Record.linesText_eq]

def plainDeps : Manifest :=
  let torch := (TableOf.empty true).insert "channel" (.string "pip")
  let deps := ((TableOf.empty false).insert "numpy" (.string "^1.16, !=1.17")).insert "torch"
    (.table torch)
  ⟨(TableOf.empty false).insert "deps" (.table deps)⟩

def plainRecords : List Record :=
  [⟨"numpy", ⟨"^1.16, !=1.17", [⟨.caret, "1.16"⟩, ⟨.notEqual, "1.17"⟩]⟩, .standard⟩,
    ⟨"torch", ⟨"", []⟩, .pip⟩]

theorem linesText_splits_iff_plain :
    plainDeps.recordsAt "deps" = .ok plainRecords ∧
    (Text.pieces '\n' (Record.linesText .pip plainRecords)).length =
      plainRecords.length + (plainRecords.map fun r => r.name.toList.count '\n').sum + 1 ∧
    (Text.pieces '\n' (Record.linesText .pip plainRecords) =
        plainRecords.map (Record.line .pip) ++ [""] ↔
      ∀ r ∈ plainRecords, '\n' ∉ r.name.toList) := by
  have h : plainDeps.recordsAt "deps" = .ok plainRecords := by rfl
  exact ⟨h, linesText_splits_iff h .pip⟩

/-- One package under a key with a line break in it. -/
def brokenKey : Manifest :=
  let deps := (TableOf.empty false).insert "numpy\ntorch" (.string "1")
  ⟨(TableOf.empty false).insert "deps" (.table deps)⟩

def brokenRecord : Record := ⟨"numpy\ntorch", ⟨"1", [⟨.bare, "1"⟩]⟩, .standard⟩

theorem brokenKey_adds_a_line :
    brokenKey.recordsAt "deps" = .ok [brokenRecord] ∧
    Text.pieces '\n' (Record.linesText .conda [brokenRecord]) = ["numpy", "torch=1", ""] := by
  constructor
  · rfl
  · decide

end Manifest

end EnvSpec
