import Mathlib.Data.List.TakeWhile
import EnvSpec.Files.Tree

/-!
# What was written is read

The location of a file that is to be written is found on another way than that of a file that is
read: the last component is kept apart, and need not be there yet. If the write succeeds, reading
the same path leads through the same directories to the same location, and finds the content there.
Every other location holds what it held before.
-/
namespace EnvSpec.FileTree

theorem checkDirectory_eq_ok_iff {tree : FileTree} {here : Location} :
    tree.checkDirectory here = .ok () ↔ tree.entry? here = some .directory := by
  unfold checkDirectory
  cases tree.entry? here with
  | none => exact ⟨nofun, nofun⟩
  | some entry => cases entry <;> simp

theorem follow_cons_eq_ok_iff {tree : FileTree} {here there : Location} {component : String}
    {rest : List String} :
    tree.follow here (component :: rest) = .ok there ↔
      tree.entry? here = some .directory ∧ tree.follow (step here component) rest = .ok there := by
  rw [follow, ← checkDirectory_eq_ok_iff]
  cases tree.checkDirectory here with
  | error _ => exact ⟨nofun, fun h => nomatch h.1⟩
  | ok _ => exact ⟨fun h => ⟨rfl, h⟩, fun h => h.2⟩

theorem follow_append_eq_ok {tree : FileTree} {here there beyond : Location}
    {components more : List String} (h : tree.follow here components = .ok there)
    (hmore : tree.follow there more = .ok beyond) :
    tree.follow here (components ++ more) = .ok beyond := by
  induction components generalizing here with
  | nil =>
    obtain rfl := Except.ok.inj h
    exact hmore
  | cons component components ih =>
    obtain ⟨hdirectory, hrest⟩ := follow_cons_eq_ok_iff.mp h
    exact follow_cons_eq_ok_iff.mpr ⟨hdirectory, ih hrest⟩

/-- A way through directories is still there in a tree that has these directories. -/
theorem follow_of_directories {tree other : FileTree}
    (hkept : ∀ here, tree.entry? here = some .directory → other.entry? here = some .directory)
    {here there : Location} {components : List String}
    (h : tree.follow here components = .ok there) : other.follow here components = .ok there := by
  induction components generalizing here with
  | nil => exact h
  | cons component components ih =>
    obtain ⟨hdirectory, hrest⟩ := follow_cons_eq_ok_iff.mp h
    exact follow_cons_eq_ok_iff.mpr ⟨hkept here hdirectory, ih hrest⟩

theorem prefix_of_named (components : List String) : named components <+: components := by
  have hsuffix := List.dropWhile_suffix (l := components.reverse) (fun c => decide (c = ""))
  have hreverse := List.reverse_prefix.mpr hsuffix
  rwa [List.reverse_reverse] at hreverse

theorem getLast?_named_ne_empty {components : List String} {name : String}
    (h : (named components).getLast? = some name) : name ≠ "" := by
  rw [named, List.getLast?_reverse] at h
  have hhead := List.head?_dropWhile_not (fun c => decide (c = "")) components.reverse
  rw [h] at hhead
  simpa using hhead

/-- A path under which a file can be written: the way to a directory, and a name in it. -/
theorem exists_name_of_locateNew {tree : FileTree} {path : String} {location : Location}
    (h : tree.locateNew path = .ok location) :
    ∃ way name parent, Text.pieces '/' path = way ++ [name] ∧
      (name ≠ "" ∧ name ≠ "." ∧ name ≠ "..") ∧ tree.follow [] way = .ok parent ∧
      tree.entry? parent = some .directory ∧ location = parent ++ [name] := by
  unfold locateNew at h
  cases hlast : (named (Text.pieces '/' path)).getLast? with
  | none =>
    simp only [hlast] at h
    cases h
  | some name =>
    obtain ⟨way, hway⟩ := List.getLast?_eq_some_iff.mp hlast
    simp only [hlast] at h
    simp only [hway, List.dropLast_concat] at h
    dsimp only [bind, Except.bind] at h
    cases hparent : tree.follow [] way with
    | error _ =>
      rw [hparent] at h
      cases h
    | ok parent =>
      cases hdirectory : tree.checkDirectory parent with
      | error _ =>
        simp only [hparent, hdirectory] at h
        cases h
      | ok _ =>
        simp only [hparent, hdirectory] at h
        split at h
        · cases h
        · next hname =>
          simp only [not_or, Nat.not_lt] at hname
          -- Nothing stands behind the name, so the components end with it.
          have hwhole := (prefix_of_named (Text.pieces '/' path)).eq_of_length_le (hway ▸ hname.1)
          refine ⟨way, name, parent, hwhole.symm.trans hway,
            ⟨getLast?_named_ne_empty hlast, hname.2⟩, hparent,
            checkDirectory_eq_ok_iff.mp hdirectory, (Except.ok.inj h).symm⟩

/-- Only a write to a location without a directory succeeds. -/
theorem entry?_ne_directory_of_write {tree written : FileTree} {path : String}
    {content : ByteArray} {location : Location} (h : tree.write path content = .ok written)
    (hlocation : tree.locateNew path = .ok location) :
    tree.entry? location ≠ some .directory := by
  intro hdirectory
  have hrefused : tree.write path content = .error .isDirectory := by
    rw [write, hlocation]
    dsimp only [bind, Except.bind]
    rw [hdirectory]
    rfl
  cases hrefused.symm.trans h

theorem step_of_name {here : Location} {name : String}
    (h : name ≠ "" ∧ name ≠ "." ∧ name ≠ "..") : step here name = here ++ [name] := by
  rw [step, if_neg (by simp [h.1, h.2.1]), if_neg h.2.2]

/-- A write that succeeds puts the content where its path leads from then on, and nothing anywhere
else. -/
theorem read_of_write {tree written : FileTree} {path : String} {content : ByteArray}
    (h : tree.write path content = .ok written) :
    ∃ location, tree.locateNew path = .ok location ∧ written.locate path = .ok location ∧
      written.read path = .ok content ∧
      ∀ here, here ≠ location → written.entry? here = tree.entry? here := by
  obtain ⟨location, hlocation, hwritten⟩ := entry?_write h
  have hentry := entry?_ne_directory_of_write h hlocation
  obtain ⟨way, name, parent, hpieces, hname, hparent, hdirectory, rfl⟩ :=
    exists_name_of_locateNew hlocation
  have hframe : ∀ here, here ≠ parent ++ [name] → written.entry? here = tree.entry? here := by
    intro here hhere
    by_cases hroot : here = []
    · unfold FileTree.entry?
      rw [if_pos hroot, if_pos hroot]
    · rw [hwritten here hroot, if_neg hhere]
  -- The written file replaces no directory, so all ways are still there.
  have hkept : ∀ here, tree.entry? here = some .directory →
      written.entry? here = some .directory := by
    intro here hhere
    rwa [hframe here]
    rintro rfl
    exact hentry hhere
  have hlocate : written.locate path = .ok (parent ++ [name]) := by
    rw [locate, hpieces]
    refine follow_append_eq_ok (follow_of_directories hkept hparent) ?_
    rw [follow_cons_eq_ok_iff, step_of_name hname]
    exact ⟨hkept parent hdirectory, rfl⟩
  refine ⟨parent ++ [name], hlocation, hlocate, ?_, hframe⟩
  rw [read, hlocate]
  dsimp only [bind, Except.bind]
  rw [hwritten _ (by simp), if_pos rfl]
  rfl

end EnvSpec.FileTree
