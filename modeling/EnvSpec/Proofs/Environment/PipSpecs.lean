import EnvSpec.Proofs.Environment.Batches

/-!
# How often pip is required

Pip is required for the sake of the item of pip requirements, and a record may ask for it by name. A
batch is searched for such a record before pip is required, and so are the batches before it. A
later batch is not: its record is put after the item although pip is required already. The
statements here count the specs for pip and say when there is more than one.
-/
namespace EnvSpec

namespace Dependency

/-- The package that a spec is for: what stands before the version. -/
def package? : Dependency → Option String
  | .spec text => some (String.ofList (text.toList.takeWhile fun c => !startsVersion c))
  | .pip _ => none

/-- The number of specs for pip. -/
def pipSpecs (dependencies : List Dependency) : Nat := dependencies.countP (·.package? = some "pip")

theorem pipSpecs_append (front back : List Dependency) :
    pipSpecs (front ++ back) = pipSpecs front + pipSpecs back :=
  List.countP_append

theorem pipSpecs_pip_cons (lines : List String) (rest : List Dependency) :
    pipSpecs (.pip lines :: rest) = pipSpecs rest := by
  unfold pipSpecs
  rw [List.countP_cons_of_neg]
  exact of_decide_eq_false rfl

end Dependency

open Dependency (package? pipSpecs)

namespace Record

/-- A record that asks for pip itself. -/
def NamesPip (r : Record) : Prop := r.channel = .standard ∧ r.name = "pip"

instance (r : Record) : Decidable r.NamesPip := inferInstanceAs (Decidable (_ ∧ _))

/-- The spec of a record is for the package that the record names. -/
theorem package?_line {r : Record} (h : r.PlainName) :
    package? (.spec (r.line .conda)) = some r.name := by
  have hname : ∀ c ∈ r.name.toList, (!Dependency.startsVersion c) = true := by
    intro c hc
    rw [Bool.not_eq_true', ← Bool.not_eq_true]
    intro hstart
    exact h c (List.contains_iff_mem.mp hstart) hc
  have hend : ∀ c, (r.constraint.specifier .conda).toList.head? = some c →
      (!Dependency.startsVersion c) = false := by
    intro c hc
    rw [Constraint.startsVersion_head_specifier hc]
    rfl
  rw [package?, line, String.toList_append, Text.takeWhile_append_of_head hname hend,
    String.ofList_toList]

end Record

namespace Environment

open Record (condaLines pipLines)

theorem pipLines_eq_nil_iff {batch : List Record} :
    pipLines batch = [] ↔ ∀ r ∈ batch, r.channel ≠ .pip := by
  rw [pipLines, Record.linesOf, List.map_eq_nil_iff, List.filter_eq_nil_iff]
  simp only [decide_eq_true_eq]

/-- Among the specs of records, those for pip are those of the records that name it. -/
theorem pipSpecs_condaLines {batches : List (List Record)}
    (h : ∀ batch ∈ batches, ∀ r ∈ batch, r.PlainName) :
    pipSpecs ((batches.flatMap condaLines).map .spec) = batches.flatten.countP (·.NamesPip) := by
  rw [condaLines, ← Record.linesOf_flatten, Record.linesOf, pipSpecs, List.countP_map,
    List.countP_map, List.countP_filter]
  apply List.countP_congr
  intro r hr
  obtain ⟨batch, hb, hr⟩ := List.mem_flatten.mp hr
  have hpackage := Record.package?_line (h batch hb r hr)
  simp only [Function.comp_apply, hpackage, Option.some.injEq, Bool.and_eq_true,
    decide_eq_true_eq, Record.NamesPip, and_comm]

/-- Some first batches have a record that pip installs and none that names pip. -/
def NeedsPipUnnamed (batches : List (List Record)) : Prop :=
  ∃ earlier later, batches = earlier ++ later ∧ (∃ r ∈ earlier.flatten, r.channel = .pip) ∧
    ∀ r ∈ earlier.flatten, ¬r.NamesPip

theorem not_needsPipUnnamed {batches : List (List Record)}
    (h : ∀ batch ∈ batches, pipLines batch = []) : ¬NeedsPipUnnamed batches := by
  rintro ⟨earlier, later, rfl, ⟨r, hr, hpip⟩, -⟩
  obtain ⟨batch, hb, hr⟩ := List.mem_flatten.mp hr
  exact pipLines_eq_nil_iff.mp (h batch (List.mem_append_left _ hb)) r hr hpip

/-- It is the first batch with such a record that decides. -/
theorem needsPipUnnamed_iff {earlier later : List (List Record)} {first : List Record}
    (hnone : ∀ batch ∈ earlier, pipLines batch = []) (hsome : pipLines first ≠ []) :
    NeedsPipUnnamed (earlier ++ first :: later) ↔
      ∀ r ∈ (earlier ++ [first]).flatten, ¬r.NamesPip := by
  constructor
  · rintro ⟨earlier', later', hsplit, hpip, hunnamed⟩
    have hprefix : earlier ++ [first] <+: earlier' ++ later' := by
      rw [← hsplit]
      exact ⟨later, by rw [List.append_assoc, List.singleton_append]⟩
    -- The batches that need pip reach up to `first` at least: without it they do not need any.
    have hreach : earlier ++ [first] <+: earlier' := by
      rcases List.prefix_or_prefix_of_prefix hprefix (List.prefix_append earlier' later') with h | h
      · exact h
      · rcases List.prefix_concat_iff.mp h with rfl | h
        · exact List.prefix_rfl
        · have hneeds : NeedsPipUnnamed earlier := by
            obtain ⟨rest, rfl⟩ := h
            exact ⟨earlier', rest, rfl, hpip, hunnamed⟩
          exact absurd hneeds (not_needsPipUnnamed hnone)
    intro r hr
    obtain ⟨batch, hb, hr⟩ := List.mem_flatten.mp hr
    exact hunnamed r (List.mem_flatten.mpr ⟨batch, hreach.subset hb, hr⟩)
  · intro hunnamed
    have hsplit : earlier ++ first :: later = (earlier ++ [first]) ++ later := by
      rw [List.append_assoc, List.singleton_append]
    refine ⟨earlier ++ [first], later, hsplit, ?_, hunnamed⟩
    rw [ne_eq, pipLines_eq_nil_iff] at hsome
    push Not at hsome
    obtain ⟨r, hr, hpip⟩ := hsome
    exact ⟨r, List.mem_flatten.mpr ⟨first, by simp, hr⟩, hpip⟩

/-- What is required for the sake of the item counts where no record named pip before. -/
theorem pipSpecs_requiredFor (batches : List (List Record)) :
    pipSpecs ((requiredFor batches).map .spec) =
      if ∃ r ∈ batches.flatten, r.NamesPip then 0 else 1 := by
  by_cases hnamed : ∃ r ∈ batches.flatten, r.NamesPip
  · have hrequired : requiredFor batches = [] := (requiredFor_eq batches).trans (if_pos hnamed)
    rw [hrequired, if_pos hnamed]
    rfl
  · have hrequired : requiredFor batches = ["pip"] := (requiredFor_eq batches).trans (if_neg hnamed)
    rw [hrequired, if_neg hnamed]
    decide

/-- The specs for pip are those of the records that name it, and one more where the item came
before them. -/
theorem Gathered.pipSpecs_eq {batches : List (List Record)} {dependencies : List Dependency}
    (h : Gathered batches dependencies) (hplain : ∀ batch ∈ batches, ∀ r ∈ batch, r.PlainName) :
    NeedsPipUnnamed batches ∧ pipSpecs dependencies = batches.flatten.countP (·.NamesPip) + 1 ∨
      ¬NeedsPipUnnamed batches ∧ pipSpecs dependencies = batches.flatten.countP (·.NamesPip) := by
  cases h with
  | specs hnone => exact Or.inr ⟨not_needsPipUnnamed hnone, pipSpecs_condaLines hplain⟩
  | @item earlier first later hnone hsome =>
    have hneeds := @needsPipUnnamed_iff earlier later first hnone hsome
    have hbatches : earlier ++ first :: later = (earlier ++ [first]) ++ later := by simp
    rw [hbatches, List.forall_mem_append] at hplain
    have hfront := pipSpecs_condaLines hplain.1
    have hback := pipSpecs_condaLines hplain.2
    have hall : (earlier ++ first :: later).flatten.countP (·.NamesPip) =
        (earlier ++ [first]).flatten.countP (·.NamesPip) + later.flatten.countP (·.NamesPip) := by
      rw [hbatches, List.flatten_append, List.countP_append]
    rw [Dependency.pipSpecs_append, Dependency.pipSpecs_pip_cons, List.map_append,
      Dependency.pipSpecs_append, hfront, hback, pipSpecs_requiredFor, hneeds, hall]
    by_cases hnamed : ∃ r ∈ (earlier ++ [first]).flatten, r.NamesPip
    · rw [if_pos hnamed]
      refine Or.inr ⟨fun hunnamed => ?_, rfl⟩
      obtain ⟨r, hr, hpip⟩ := hnamed
      exact hunnamed r hr hpip
    · rw [if_neg hnamed]
      exact Or.inl ⟨fun r hr hpip => hnamed ⟨r, hr, hpip⟩, by omega⟩

/-- A record names pip only in a batch that comes after one with a record that pip installs. -/
def NamedLate (batches : List (List Record)) : Prop :=
  ∃ earlier later, batches = earlier ++ later ∧ (∃ r ∈ earlier.flatten, r.channel = .pip) ∧
    (∀ r ∈ earlier.flatten, ¬r.NamesPip) ∧ ∃ r ∈ later.flatten, r.NamesPip

theorem namedLate_iff {batches : List (List Record)} :
    NamedLate batches ↔ NeedsPipUnnamed batches ∧ 0 < batches.flatten.countP (·.NamesPip) := by
  simp only [List.countP_pos_iff, decide_eq_true_eq]
  constructor
  · rintro ⟨earlier, later, rfl, hpip, hunnamed, r, hr, hnamed⟩
    refine ⟨⟨earlier, later, rfl, hpip, hunnamed⟩, r, ?_, hnamed⟩
    rw [List.flatten_append]
    exact List.mem_append_right _ hr
  · rintro ⟨⟨earlier, later, rfl, hpip, hunnamed⟩, r, hr, hnamed⟩
    rw [List.flatten_append] at hr
    rcases List.mem_append.mp hr with hr | hr
    · exact absurd hnamed (hunnamed r hr)
    · exact ⟨earlier, later, rfl, hpip, hunnamed, r, hr, hnamed⟩

/-- Where one record at most names pip, pip is required once at most, unless that record comes in a
batch after pip was required without it. Then it is required twice. -/
theorem pipSpecs_le_one_iff (name : String) (channels : List String) (batches : List (List Record))
    (hplain : ∀ batch ∈ batches, ∀ r ∈ batch, r.PlainName)
    (hone : batches.flatten.countP (·.NamesPip) ≤ 1) :
    (pipSpecs (batches.foldl add (new name channels)).dependencies ≤ 1 ↔ ¬NamedLate batches) ∧
    (NamedLate batches → pipSpecs (batches.foldl add (new name channels)).dependencies = 2) := by
  have hgathered : Gathered batches (batches.foldl add (new name channels)).dependencies := by
    rw [dependencies_foldl_add]
    exact gathered_foldl_extend hplain
  rw [namedLate_iff]
  rcases hgathered.pipSpecs_eq hplain with ⟨hneeds, hcount⟩ | ⟨hneeds, hcount⟩
  · simp only [hneeds, true_and, hcount]
    omega
  · simp only [hneeds, false_and, not_false_eq_true, iff_true, hcount, false_imp_iff, and_true]
    exact hone

/-- Pip is named before it is needed, in the same batch as what it installs, and not again. -/
def pipNamedInTime : List (List Record) :=
  [[⟨"numpy", ⟨"", []⟩, .standard⟩],
    [⟨"torch", ⟨"", []⟩, .pip⟩, ⟨"pip", ⟨">=20", [⟨.greaterEq, "20"⟩]⟩, .standard⟩],
    [⟨"tvm", ⟨"0.7", [⟨.bare, "0.7"⟩]⟩, .pip⟩, ⟨"pipx", ⟨"", []⟩, .standard⟩]]

theorem pipSpecs_le_one_iff_named_in_time :
    (∀ batch ∈ pipNamedInTime, ∀ r ∈ batch, r.PlainName) ∧
    pipNamedInTime.flatten.countP (·.NamesPip) ≤ 1 ∧
    (pipSpecs (pipNamedInTime.foldl add (new "myia" [])).dependencies ≤ 1 ↔
      ¬NamedLate pipNamedInTime) ∧
    (NamedLate pipNamedInTime →
      pipSpecs (pipNamedInTime.foldl add (new "myia" [])).dependencies = 2) := by
  have hplain : ∀ batch ∈ pipNamedInTime, ∀ r ∈ batch, r.PlainName := by decide
  have hone : pipNamedInTime.flatten.countP (·.NamesPip) ≤ 1 := by decide
  exact ⟨hplain, hone, pipSpecs_le_one_iff "myia" [] pipNamedInTime hplain hone⟩

/-- A batch that pip is needed for, then one that names it. -/
def pipNamedLate : List (List Record) :=
  [[⟨"torch", ⟨"", []⟩, .pip⟩], [⟨"pip", ⟨">=20", [⟨.greaterEq, "20"⟩]⟩, .standard⟩]]

theorem pipNamedLate_required_twice :
    (∀ batch ∈ pipNamedLate, ∀ r ∈ batch, r.PlainName) ∧
    pipNamedLate.flatten.Pairwise (fun r s => r.channel = s.channel → r.name ≠ s.name) ∧
    pipNamedLate.flatten.countP (·.NamesPip) ≤ 1 ∧
    (pipNamedLate.foldl add (new "myia" [])).dependencies =
      [.spec "pip", .pip ["torch"], .spec "pip>=20"] ∧
    ¬pipSpecs (pipNamedLate.foldl add (new "myia" [])).dependencies ≤ 1 := by
  decide

end Environment

end EnvSpec
