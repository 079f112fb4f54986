import Mathlib.Data.List.Induction
import EnvSpec.Environment.Basic
import EnvSpec.Proofs.Requirement.Conda

/-!
# Environments from batches of records

Records are added batch by batch. Each batch is split by channel, pip is required when the first
record needs it, and from then on one item in the middle of the list grows while specs are put at
its end. `Gathered` says what comes out without going through the steps. Whether pip is asked for is
decided on specs that are already written. This is shown to depend on the names of the records
alone, as long as these have no operator characters in them.
-/
namespace EnvSpec

namespace Record

/-- The lines of the records of one channel. -/
def linesOf (channel : Channel) (target : Target) (batch : List Record) : List String :=
  (batch.filter (·.channel = channel)).map (line target)

def condaLines : List Record → List String := linesOf .standard .conda

def pipLines : List Record → List String := linesOf .pip .pip

/-- The lines of several batches are those of all their records. -/
theorem linesOf_flatten (channel : Channel) (target : Target) (batches : List (List Record)) :
    linesOf channel target batches.flatten = batches.flatMap (linesOf channel target) := by
  induction batches with
  | nil => rfl
  | cons batch batches ih =>
    rw [List.flatten_cons, List.flatMap_cons, ← ih]
    simp only [linesOf, List.filter_append, List.map_append]

/-- The name has none of the characters that may follow a name in a spec. -/
def PlainName (r : Record) : Prop := ∀ c ∈ ['=', '<', '>', '!', '~'], c ∉ r.name.toList

instance (r : Record) : Decidable r.PlainName :=
  List.decidableBAll (fun c => c ∉ r.name.toList) ['=', '<', '>', '!', '~']

end Record

namespace Dependency

theorem asksForPip_spec_iff {text : String} :
    asksForPip (.spec text) = true ↔
      ∃ rest, text.toList = ['p', 'i', 'p'] ++ rest ∧
        ∀ c, rest.head? = some c → startsVersion c = true := by
  have hpip : "pip".toList = ['p', 'i', 'p'] := by decide
  simp only [asksForPip, hpip, Bool.and_eq_true, List.isPrefixOf_iff_prefix, Option.all_eq_true]
  constructor
  · rintro ⟨⟨rest, hrest⟩, hhead⟩
    rw [← hrest] at hhead
    exact ⟨rest, hrest.symm, hhead⟩
  · rintro ⟨rest, hrest, hhead⟩
    rw [hrest]
    exact ⟨List.prefix_append _ _, hhead⟩

theorem asksForPip_pip : asksForPip (.spec "pip") = true := by decide

theorem any_asksForPip_requirePip (dependencies : List Dependency) :
    (requirePip dependencies).any asksForPip = true := by
  unfold requirePip
  split
  · assumption
  · rw [List.any_append, Bool.or_eq_true]
    exact Or.inr asksForPip_pip

end Dependency

/-- What follows the name in a spec begins with a character that may follow it. -/
theorem Constraint.startsVersion_head_specifier {c : Constraint} {x : Char}
    (h : (c.specifier .conda).toList.head? = some x) : Dependency.startsVersion x = true := by
  obtain ⟨op, hop⟩ := exists_symbol_of_head_specifier h
  cases op <;> cases hop <;> decide

/-- The spec of a record asks for pip exactly if the record is named so. -/
theorem Record.asksForPip_line_iff {r : Record} (h : r.PlainName) :
    Dependency.asksForPip (.spec (r.line .conda)) = true ↔ r.name = "pip" := by
  have hline : (r.line .conda).toList = r.name.toList ++ (r.constraint.specifier .conda).toList := by
    rw [line, String.toList_append]
  have hspecifier := fun x => Constraint.startsVersion_head_specifier (c := r.constraint) (x := x)
  have hname : r.name = "pip" ↔ r.name.toList = ['p', 'i', 'p'] := by
    rw [← String.toList_inj]
    rfl
  rw [Dependency.asksForPip_spec_iff, hname, hline]
  constructor
  · rintro ⟨rest, hrest, hhead⟩
    -- One of the name and `pip` continues the other. The character after the shorter one starts a
    -- version, which is so for no character of either.
    rcases List.append_eq_append_iff.mp hrest with ⟨more, hpip, hspec⟩ | ⟨more, hlonger, hrest⟩
    · cases more with
      | nil => rw [hpip, List.append_nil]
      | cons c more =>
        have hstart := hspecifier c (by rw [hspec]; rfl)
        have hmem : c ∈ ['p', 'i', 'p'] := by simp [hpip]
        simp only [List.mem_cons, List.not_mem_nil, or_false] at hmem
        rcases hmem with rfl | rfl | rfl <;> exact absurd hstart (by decide)
    · cases more with
      | nil => rw [hlonger, List.append_nil]
      | cons c more =>
        have hstart := hhead c (by rw [hrest]; rfl)
        have hmark : c ∈ ['=', '<', '>', '!', '~'] := List.contains_iff_mem.mp hstart
        exact absurd (by simp [hlonger]) (h c hmark)
  · intro hpip
    exact ⟨_, by rw [hpip], hspecifier⟩

namespace Environment

open Record (condaLines pipLines)

/-- What pip requirements need beside the specs of standard records: pip, unless one names it. -/
def requiredBeside (standard : List Record) : List String :=
  if ∃ r ∈ standard, r.name = "pip" then [] else ["pip"]

/-- The specs that are put before the item of pip requirements for its sake. -/
def requiredFor (batches : List (List Record)) : List String :=
  requiredBeside (batches.flatten.filter (·.channel = .standard))

/-- Pip is required for the sake of the item unless a standard record is named so. -/
theorem requiredFor_eq (batches : List (List Record)) :
    requiredFor batches =
      if ∃ r ∈ batches.flatten, r.channel = .standard ∧ r.name = "pip" then [] else ["pip"] := by
  simp only [requiredFor, requiredBeside, List.mem_filter, decide_eq_true_eq, and_assoc]

/-- The dependencies that batches of records amount to. -/
inductive Gathered : List (List Record) → List Dependency → Prop where
  | specs {batches : List (List Record)} (none : ∀ batch ∈ batches, pipLines batch = []) :
      Gathered batches ((batches.flatMap condaLines).map .spec)
  | item {earlier : List (List Record)} {first : List Record} {later : List (List Record)}
      (none : ∀ batch ∈ earlier, pipLines batch = []) (some : pipLines first ≠ []) :
      Gathered (earlier ++ first :: later)
        (((earlier ++ [first]).flatMap condaLines ++ requiredFor (earlier ++ [first])).map .spec ++
          .pip ((first :: later).flatMap pipLines) :: (later.flatMap condaLines).map .spec)

theorem extend_eq (dependencies : List Dependency) (batch : List Record) :
    extend dependencies batch =
      if pipLines batch = [] then dependencies ++ (condaLines batch).map .spec
      else Dependency.addPipLines (pipLines batch)
        (Dependency.requirePip (dependencies ++ (condaLines batch).map .spec)) := by
  have hspecs : (condaLines batch).map Dependency.spec =
      (batch.filter (·.channel = .standard)).map fun r => .spec (r.line .conda) := by
    rw [condaLines, Record.linesOf, List.map_map]
    rfl
  simp only [extend, hspecs, pipLines, Record.linesOf, List.isEmpty_iff, List.map_eq_nil_iff]

theorem addPipLines_map_spec (lines texts : List String) (rest : List Dependency) :
    Dependency.addPipLines lines (texts.map .spec ++ rest) =
      texts.map .spec ++ Dependency.addPipLines lines rest := by
  induction texts with
  | nil => rfl
  | cons text texts ih =>
    rw [List.map_cons, List.cons_append, Dependency.addPipLines, ih, List.cons_append]

/-- The specs of several batches are those of all their standard records. -/
theorem flatMap_condaLines (batches : List (List Record)) :
    batches.flatMap condaLines =
      (batches.flatten.filter (·.channel = .standard)).map (Record.line .conda) :=
  (Record.linesOf_flatten .standard .conda batches).symm

theorem plainName_of_mem_standard {batches : List (List Record)}
    (h : ∀ batch ∈ batches, ∀ r ∈ batch, r.PlainName) :
    ∀ r ∈ batches.flatten.filter (·.channel = .standard), r.PlainName := by
  intro r hr
  obtain ⟨batch, hb, hr⟩ := List.mem_flatten.mp (List.mem_of_mem_filter hr)
  exact h batch hb r hr

/-- Pip is required of the specs of records that do not name it. -/
theorem requirePip_map_line {standard : List Record} (hplain : ∀ r ∈ standard, r.PlainName) :
    Dependency.requirePip ((standard.map (Record.line .conda)).map .spec) =
      (standard.map (Record.line .conda) ++ requiredBeside standard).map .spec := by
  have hasks : ((standard.map (Record.line .conda)).map Dependency.spec).any
      Dependency.asksForPip = true ↔ ∃ r ∈ standard, r.name = "pip" := by
    rw [List.map_map, List.any_map, List.any_eq_true]
    refine exists_congr fun r => and_congr_right fun hr => ?_
    exact Record.asksForPip_line_iff (hplain r hr)
  unfold Dependency.requirePip requiredBeside
  by_cases hnamed : ∃ r ∈ standard, r.name = "pip"
  · rw [if_pos (hasks.mpr hnamed), if_pos hnamed, List.append_nil]
  · rw [if_neg fun hany => hnamed (hasks.mp hany), if_neg hnamed, List.map_append]
    rfl

theorem requirePip_condaLines {batches : List (List Record)}
    (h : ∀ batch ∈ batches, ∀ r ∈ batch, r.PlainName) :
    Dependency.requirePip ((batches.flatMap condaLines).map .spec) =
      (batches.flatMap condaLines ++ requiredFor batches).map .spec := by
  rw [flatMap_condaLines]
  exact requirePip_map_line (plainName_of_mem_standard h)

/-- The dependencies that conda lines and pip lines make. What is required is put between them where
there are pip lines. -/
def assembled (specs required lines : List String) : List Dependency :=
  specs.map .spec ++ if lines = [] then [] else required.map .spec ++ [.pip lines]

/-- A batch that is added to the specs of standard records makes the dependencies that all standard
records and its own pip records make. -/
theorem extend_specs {present batch standard : List Record}
    (hstandard : present ++ batch.filter (·.channel = .standard) = standard)
    (hplain : ∀ r ∈ standard, r.PlainName) :
    extend ((present.map (Record.line .conda)).map .spec) batch =
      assembled (standard.map (Record.line .conda)) (requiredBeside standard) (pipLines batch) := by
  have hspecs : (present.map (Record.line .conda)).map Dependency.spec ++
      (condaLines batch).map .spec = (standard.map (Record.line .conda)).map .spec := by
    rw [condaLines, Record.linesOf, ← List.map_append, ← List.map_append, hstandard]
  rw [extend_eq, hspecs, assembled]
  by_cases hnone : pipLines batch = []
  · rw [if_pos hnone, if_pos hnone, List.append_nil]
  · have hadd := addPipLines_map_spec (pipLines batch)
      (standard.map (Record.line .conda) ++ requiredBeside standard) []
    rw [List.append_nil] at hadd
    rw [if_neg hnone, if_neg hnone, requirePip_map_line hplain, hadd, List.map_append,
      List.append_assoc]
    rfl

/-- Where pip is asked for before the item, a batch adds to the item and to the end. -/
theorem extend_item {front lines back : List String}
    (hasks : (front.map Dependency.spec).any Dependency.asksForPip = true) (batch : List Record) :
    extend (front.map .spec ++ .pip lines :: back.map .spec) batch =
      front.map .spec ++ .pip (lines ++ pipLines batch) :: (back ++ condaLines batch).map .spec := by
  rw [extend_eq, List.append_assoc, List.cons_append, ← List.map_append]
  split
  · next hnone => rw [hnone, List.append_nil]
  · rw [Dependency.requirePip, List.any_append, hasks, Bool.true_or, if_pos rfl,
      addPipLines_map_spec]
    rfl

/-- A batch takes what was gathered to what is gathered with it. -/
theorem Gathered.extend {batches : List (List Record)} {dependencies : List Dependency}
    (h : Gathered batches dependencies) {batch : List Record}
    (hplain : ∀ b ∈ batches ++ [batch], ∀ r ∈ b, r.PlainName) :
    Gathered (batches ++ [batch]) (Environment.extend dependencies batch) := by
  cases h with
  | specs hnone =>
    have hstandard : batches.flatten.filter (·.channel = .standard) ++
        batch.filter (·.channel = .standard) =
          (batches ++ [batch]).flatten.filter (·.channel = .standard) := by
      rw [List.flatten_append, List.flatten_singleton, List.filter_append]
    have hextend := extend_specs hstandard (plainName_of_mem_standard hplain)
    rw [← flatMap_condaLines, ← flatMap_condaLines] at hextend
    rw [hextend, assembled]
    split
    · next hbatch =>
      rw [List.append_nil]
      refine .specs fun b hb => ?_
      rcases List.mem_append.mp hb with hb | hb
      · exact hnone b hb
      · rwa [List.mem_singleton.mp hb]
    · next hbatch =>
      have hitem := @Gathered.item batches batch [] hnone hbatch
      simpa [requiredFor] using hitem
  | @item earlier first later hnone hsome =>
    have hsub : earlier ++ [first] ⊆ earlier ++ first :: later ++ [batch] := by simp
    have hasks := Dependency.any_asksForPip_requirePip
      (((earlier ++ [first]).flatMap condaLines).map .spec)
    rw [requirePip_condaLines fun b hb => hplain b (hsub hb)] at hasks
    rw [extend_item hasks]
    have hitem := @Gathered.item earlier first (later ++ [batch]) hnone hsome
    simpa [List.flatMap_append] using hitem

theorem gathered_foldl_extend {batches : List (List Record)}
    (hplain : ∀ batch ∈ batches, ∀ r ∈ batch, r.PlainName) :
    Gathered batches (batches.foldl extend []) := by
  induction batches using List.reverseRecOn with
  | nil => exact .specs fun batch hb => absurd hb List.not_mem_nil
  | append_singleton batches batch ih =>
    have hearlier := ih fun b hb => hplain b (List.mem_append_left _ hb)
    rw [List.foldl_append]
    exact hearlier.extend hplain

/-- Adding records changes the dependencies alone. -/
theorem dependencies_foldl_add (batches : List (List Record)) (e : Environment) :
    (batches.foldl add e).dependencies = batches.foldl extend e.dependencies := by
  induction batches generalizing e with
  | nil => rfl
  | cons batch batches ih => exact ih (e.add batch)

end Environment

namespace Dependency

def lines? : Dependency → Option (List String)
  | .spec _ => none
  | .pip lines => some lines

def text? : Dependency → Option String
  | .spec text => some text
  | .pip _ => none

theorem filterMap_lines?_map_spec (texts : List String) : (texts.map spec).filterMap lines? = [] := by
  rw [List.filterMap_map]
  exact List.filterMap_eq_nil_iff.mpr fun _ _ => rfl

theorem filterMap_text?_map_spec (texts : List String) :
    (texts.map spec).filterMap text? = texts := by
  rw [List.filterMap_map]
  exact List.filterMap_some

theorem pip_not_mem_map_spec (lines texts : List String) : pip lines ∉ texts.map spec := by
  intro h
  obtain ⟨text, -, htext⟩ := List.mem_map.mp h
  cases htext

/-- Specs stand before every item that comes after them. -/
theorem map_spec_subset_of_append_eq {texts lines : List String} {rest before after : List Dependency}
    (h : texts.map spec ++ rest = before ++ pip lines :: after) : texts.map spec ⊆ before := by
  rcases List.append_eq_append_iff.mp h with ⟨more, rfl, -⟩ | ⟨more, htexts, hmore⟩
  · exact List.subset_append_left _ _
  · cases more with
    | nil =>
      rw [htexts, List.append_nil]
      exact List.Subset.refl _
    | cons d more =>
      obtain ⟨rfl, -⟩ := List.cons.inj hmore
      have hmem : pip lines ∈ texts.map spec := by
        rw [htexts]
        exact List.mem_append_right _ List.mem_cons_self
      exact absurd hmem (pip_not_mem_map_spec lines texts)

end Dependency

namespace Environment

open Record (condaLines pipLines)

/-- What the dependencies keep of batches of records. All pip lines are in one item, if there are
any, and before it there is a spec for pip. The specs are the conda lines in their order, with at
most one for pip put between them. -/
structure Kept (batches : List (List Record)) (dependencies : List Dependency) : Prop where
  items : dependencies.filterMap Dependency.lines? =
    if batches.flatMap pipLines = [] then [] else [batches.flatMap pipLines]
  required : ∀ before lines after, dependencies = before ++ .pip lines :: after →
    .spec "pip" ∈ before ∨
      ∃ r ∈ batches.flatten, r.channel = .standard ∧ r.name = "pip" ∧ .spec (r.line .conda) ∈ before
  specs : ∃ front back, batches.flatMap condaLines = front ++ back ∧
    (dependencies.filterMap Dependency.text? = front ++ back ∨
      dependencies.filterMap Dependency.text? = front ++ "pip" :: back)

/-- What is required for the sake of the item is among the specs before it. -/
theorem spec_mem_of_requiredFor (batches : List (List Record)) :
    .spec "pip" ∈ (batches.flatMap condaLines ++ requiredFor batches).map Dependency.spec ∨
      ∃ r ∈ batches.flatten, r.channel = .standard ∧ r.name = "pip" ∧
        .spec (r.line .conda) ∈
          (batches.flatMap condaLines ++ requiredFor batches).map Dependency.spec := by
  by_cases hnamed : ∃ r ∈ batches.flatten, r.channel = .standard ∧ r.name = "pip"
  · obtain ⟨r, hr, hchannel, hname⟩ := hnamed
    have hline : r.line .conda ∈ batches.flatMap condaLines := by
      rw [condaLines, ← Record.linesOf_flatten]
      exact List.mem_map_of_mem (List.mem_filter.mpr ⟨hr, decide_eq_true hchannel⟩)
    exact Or.inr ⟨r, hr, hchannel, hname, List.mem_map_of_mem (List.mem_append_left _ hline)⟩
  · have hrequired : requiredFor batches = ["pip"] := (requiredFor_eq batches).trans (if_neg hnamed)
    rw [hrequired]
    exact Or.inl (List.mem_map_of_mem (List.mem_append_right _ (List.mem_singleton_self _)))

theorem flatMap_pipLines_eq_nil {batches : List (List Record)}
    (h : ∀ batch ∈ batches, pipLines batch = []) : batches.flatMap pipLines = [] :=
  List.flatMap_eq_nil_iff.mpr h

theorem Gathered.kept {batches : List (List Record)} {dependencies : List Dependency}
    (h : Gathered batches dependencies) : Kept batches dependencies := by
  cases h with
  | specs hnone =>
    constructor
    · rw [Dependency.filterMap_lines?_map_spec, if_pos (flatMap_pipLines_eq_nil hnone)]
    · intro before lines after hsplit
      have hmem : Dependency.pip lines ∈ (batches.flatMap condaLines).map .spec := by simp [hsplit]
      exact absurd hmem (Dependency.pip_not_mem_map_spec _ _)
    · refine ⟨batches.flatMap condaLines, [], (List.append_nil _).symm, Or.inl ?_⟩
      rw [Dependency.filterMap_text?_map_spec, List.append_nil]
  | @item earlier first later hnone hsome =>
    have hlines : (earlier ++ first :: later).flatMap pipLines = (first :: later).flatMap pipLines := by
      rw [List.flatMap_append, flatMap_pipLines_eq_nil hnone, List.nil_append]
    have hne : (first :: later).flatMap pipLines ≠ [] := by
      rw [List.flatMap_cons]
      exact List.append_ne_nil_of_left_ne_nil hsome _
    constructor
    · rw [hlines, if_neg hne, List.filterMap_append, List.filterMap_cons,
        Dependency.filterMap_lines?_map_spec, Dependency.filterMap_lines?_map_spec]
      rfl
    · intro before lines after hsplit
      have hbefore := Dependency.map_spec_subset_of_append_eq hsplit
      have hsub : earlier ++ [first] ⊆ earlier ++ first :: later := by simp
      rcases spec_mem_of_requiredFor (earlier ++ [first]) with hpip | ⟨r, hr, hchannel, hname, hline⟩
      · exact Or.inl (hbefore hpip)
      · obtain ⟨batch, hb, hr⟩ := List.mem_flatten.mp hr
        exact Or.inr ⟨r, List.mem_flatten.mpr ⟨batch, hsub hb, hr⟩, hchannel, hname, hbefore hline⟩
    · refine ⟨(earlier ++ [first]).flatMap condaLines, later.flatMap condaLines, by simp, ?_⟩
      rw [List.filterMap_append, List.filterMap_cons, Dependency.filterMap_text?_map_spec,
        Dependency.filterMap_text?_map_spec]
      rw [requiredFor_eq]
      split
      · left
        rw [List.append_nil]
        rfl
      · right
        rw [List.append_assoc]
        rfl

/-- An environment that is built from batches of records gathers them, and keeps all of them. -/
theorem foldl_add_gathers (name : String) (channels : List String) (batches : List (List Record))
    (hplain : ∀ batch ∈ batches, ∀ r ∈ batch, r.PlainName) :
    Gathered batches (batches.foldl add (new name channels)).dependencies ∧
    Kept batches (batches.foldl add (new name channels)).dependencies := by
  have h := gathered_foldl_extend hplain
  rw [dependencies_foldl_add]
  exact ⟨h, h.kept⟩

/-- Pip is required before a record asks for it by name. -/
def threeBatches : List (List Record) :=
  [[⟨"numpy", ⟨"^1.16", [⟨.caret, "1.16"⟩]⟩, .standard⟩],
    [⟨"torch", ⟨"", []⟩, .pip⟩, ⟨"pipx", ⟨"", []⟩, .standard⟩],
    [⟨"pip", ⟨">=20", [⟨.greaterEq, "20"⟩]⟩, .standard⟩, ⟨"tvm", ⟨"0.7", [⟨.bare, "0.7"⟩]⟩, .pip⟩]]

theorem foldl_add_gathers_three_batches :
    (∀ batch ∈ threeBatches, ∀ r ∈ batch, r.PlainName) ∧
    Gathered threeBatches (threeBatches.foldl add (new "myia" [])).dependencies ∧
    Kept threeBatches (threeBatches.foldl add (new "myia" [])).dependencies := by
  have hplain : ∀ batch ∈ threeBatches, ∀ r ∈ batch, r.PlainName := by decide
  exact ⟨hplain, foldl_add_gathers "myia" [] threeBatches hplain⟩

example : (threeBatches.foldl add (new "myia" [])).dependencies =
    [.spec "numpy=1.16", .spec "pipx", .spec "pip", .pip ["torch", "tvm==0.7"], .spec "pip>=20"] := by
  decide

end Environment

end EnvSpec
