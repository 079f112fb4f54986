import Mathlib.Data.List.GetD
import EnvSpec.Version.Release
import EnvSpec.Proofs.Text.Cutting
import EnvSpec.Proofs.Text.Numeral

/-!
# Release numbers are read back

Decimal numerals are written without superfluous zeros, so a release number is read back from its
text. What the caret bounds is the pivot of the written components: the leftmost one that is not
zero, or the last one where all are.
-/
namespace EnvSpec

namespace Version

/-- The version is a release number with these components. -/
structure Writes (version : String) (components : List Nat) : Prop where
  written : version = text components
  nonempty : components ≠ []
  length_le : components.length ≤ 3
  lt_limit : ∀ n ∈ components, n < componentLimit

/-- A component is read from the numeral that is written for it, and from no other text. -/
theorem component?_eq_some_iff {digits : String} {n : Nat} :
    component? digits = some n ↔ digits = n.repr ∧ n < componentLimit := by
  simp only [component?, Option.bind_eq_bind, Option.bind_eq_some_iff,
    Text.plainNumeral?_eq_some_iff, String.toList_inj]
  constructor
  · rintro ⟨m, rfl, hm⟩
    split at hm
    · next hlt =>
      obtain rfl := Option.some.inj hm
      exact ⟨rfl, hlt⟩
    · cases hm
  · rintro ⟨rfl, hlt⟩
    exact ⟨n, rfl, if_pos hlt⟩

/-- A release number is made of digits and dots. -/
theorem isDigit_or_dot_of_mem_text {components : List Nat} {c : Char}
    (h : c ∈ (text components).toList) : c.isDigit = true ∨ c = '.' := by
  rcases Text.mem_toList_join h with rfl | ⟨p, hp, hc⟩
  · exact Or.inr rfl
  · obtain ⟨n, -, rfl⟩ := List.mem_map.mp hp
    exact Or.inl (Text.isDigit_of_mem_repr hc)

theorem unblank_text (components : List Nat) : Text.Unblank (text components).toList := by
  intro c hc
  rcases isDigit_or_dot_of_mem_text hc with hdigit | rfl
  · exact Text.isBlank_of_isDigit hdigit
  · decide

theorem toList_text_ne_nil {components : List Nat} (h : components ≠ []) :
    (text components).toList ≠ [] := by
  obtain ⟨n, rest, rfl⟩ := List.exists_cons_of_ne_nil h
  obtain ⟨tail, htail⟩ := Text.exists_toList_join_cons '.' (rest.map Nat.repr)
  rw [text, List.map_cons, htail, Nat.toList_repr]
  exact List.append_ne_nil_of_left_ne_nil Nat.toDigits_ne_nil tail

theorem pieces_text {components : List Nat} (h : components ≠ []) :
    Text.pieces '.' (text components) = components.map Nat.repr := by
  refine Text.pieces_join '.' _ (by simpa using h) fun p hp => ?_
  obtain ⟨n, -, rfl⟩ := List.mem_map.mp hp
  intro hdot
  exact absurd (Text.isDigit_of_mem_repr hdot) (by decide)

theorem mapM_component?_eq_some_iff {version : String} {components : List Nat} :
    (Text.pieces '.' version).mapM component? = some components ↔
      version = text components ∧ components ≠ [] ∧ ∀ n ∈ components, n < componentLimit := by
  rw [Text.mapM_eq_some_iff_of_inverse fun _ _ => component?_eq_some_iff]
  constructor
  · rintro ⟨hpieces, hlt⟩
    refine ⟨by rw [text, ← hpieces, Text.join_pieces], ?_, hlt⟩
    rintro rfl
    exact Text.pieces_ne_nil '.' version hpieces
  · rintro ⟨rfl, hne, hlt⟩
    exact ⟨pieces_text hne, hlt⟩

/-- What is read from a text is the release number in it, with blanks around it. -/
theorem release?_eq_some_iff {version : String} {components : List Nat} :
    release? version = some components ↔ Writes (Text.trim version) components := by
  simp only [release?]
  constructor
  · intro h
    split at h
    · next hlen =>
      obtain ⟨hwritten, hne, hlt⟩ := mapM_component?_eq_some_iff.mp h
      rw [hwritten, pieces_text hne, List.length_map] at hlen
      exact ⟨hwritten, hne, hlen, hlt⟩
    · cases h
  · rintro ⟨hwritten, hne, hlen, hlt⟩
    have hlength : (Text.pieces '.' (Text.trim version)).length ≤ 3 := by
      rwa [hwritten, pieces_text hne, List.length_map]
    rw [if_pos hlength]
    exact mapM_component?_eq_some_iff.mpr ⟨hwritten, hne, hlt⟩

/-- The components of a release number are read from its text. -/
theorem Writes.release?_eq {version : String} {components : List Nat}
    (h : Writes version components) : release? version = some components := by
  have htrim : Text.trim version = version := by
    rw [h.written]
    exact Text.trim_of_unblank (unblank_text components)
  rw [release?_eq_some_iff, htrim]
  exact h

theorem Writes.unique {version : String} {components components' : List Nat}
    (h : Writes version components) (h' : Writes version components') :
    components = components' := by
  rw [← Option.some.injEq, ← h.release?_eq, h'.release?_eq]

/-- The place of the leftmost component that is not zero, or of the last one where all are. -/
structure IsPivot (components : List Nat) (k : Nat) : Prop where
  lt_length : k < components.length
  zero_before : ∀ i < k, components.getD i 0 = 0
  nonzero_or_last : components.getD k 0 ≠ 0 ∨ k + 1 = components.length

theorem IsPivot.unique {components : List Nat} {j k : Nat} (hj : IsPivot components j)
    (hk : IsPivot components k) : j = k := by
  rcases Nat.lt_trichotomy j k with hlt | heq | hgt
  · have hzero := hk.zero_before j hlt
    have hlast := hj.nonzero_or_last.resolve_left (not_not_intro hzero)
    have hbound := hk.lt_length
    omega
  · exact heq
  · have hzero := hj.zero_before k hgt
    have hlast := hk.nonzero_or_last.resolve_left (not_not_intro hzero)
    have hbound := hj.lt_length
    omega

theorem isPivot_caretIndex {components : List Nat} (h : components ≠ []) :
    IsPivot components (caretIndex components) := by
  have hpos := List.length_pos_iff.mpr h
  cases hfind : components.findIdx? (· ≠ 0) with
  | none =>
    have hall := List.findIdx?_eq_none_iff.mp hfind
    have hindex : caretIndex components = components.length - 1 := by rw [caretIndex, hfind]; rfl
    rw [hindex]
    refine ⟨by omega, fun i hi => ?_, Or.inr (by omega)⟩
    have hzero := hall components[i] (List.getElem_mem (by omega))
    rw [List.getD_eq_getElem _ _ (by omega)]
    simpa using hzero
  | some k =>
    obtain ⟨hk, hnonzero, hbefore⟩ := List.findIdx?_eq_some_iff_getElem.mp hfind
    have hindex : caretIndex components = k := by rw [caretIndex, hfind]; rfl
    rw [hindex]
    refine ⟨hk, fun i hi => ?_, Or.inl ?_⟩
    · have hzero := hbefore i hi
      rw [List.getD_eq_getElem _ _ (by omega)]
      simpa using hzero
    · rw [List.getD_eq_getElem _ _ hk]
      simpa using hnonzero

theorem isPivot_iff {components : List Nat} (h : components ≠ []) {k : Nat} :
    IsPivot components k ↔ k = caretIndex components := by
  constructor
  · intro hk
    exact hk.unique (isPivot_caretIndex h)
  · rintro rfl
    exact isPivot_caretIndex h

/-- The components before place `k`, and that one plus one. -/
def raised (components : List Nat) (k : Nat) : List Nat :=
  components.take k ++ [components.getD k 0 + 1]

/-- The component at a place that is there is raised if that does not exceed the limit. -/
theorem raise?_eq {components : List Nat} {k : Nat} (hk : k < components.length) :
    raise? components k =
      if components.getD k 0 + 1 < componentLimit then some (raised components k) else none := by
  simp only [raise?, raised, List.getElem?_eq_getElem hk, List.getD_eq_getElem _ _ hk,
    Option.bind_eq_bind, Option.bind_some]

/-- A raised release number has at least the raised component. -/
theorem ne_nil_of_raise? {components upper : List Nat} {k : Nat}
    (h : raise? components k = some upper) : upper ≠ [] := by
  simp only [raise?, Option.bind_eq_bind, Option.bind_eq_some_iff] at h
  obtain ⟨n, -, hn⟩ := h
  split at hn
  · rw [← Option.some.inj hn]
    exact List.append_ne_nil_of_right_ne_nil _ (List.cons_ne_nil _ _)
  · cases hn

/-- The text of an upper bound that raises the component at the place `index` gives. The bounds of
caret and tilde are this one for their own places. -/
def bound? (index : List Nat → Nat) (version : String) : Option String :=
  (release? version).bind fun components => (raise? components (index components)).map text

theorem exists_text_of_bound? {index : List Nat → Nat} {version upper : String}
    (h : bound? index version = some upper) :
    ∃ components, components ≠ [] ∧ upper = text components := by
  simp only [bound?, Option.bind_eq_some_iff, Option.map_eq_some_iff] at h
  obtain ⟨_, -, components, hraise, rfl⟩ := h
  exact ⟨components, ne_nil_of_raise? hraise, rfl⟩

/-- There is a bound of the release numbers whose component at the place can be raised. -/
theorem bound?_eq_some_iff {index : List Nat → Nat}
    (hindex : ∀ {components}, components ≠ [] → index components < components.length)
    {version upper : String} :
    bound? index version = some upper ↔
      ∃ components, Writes (Text.trim version) components ∧
        components.getD (index components) 0 + 1 < componentLimit ∧
          upper = text (raised components (index components)) := by
  simp only [bound?, Option.bind_eq_some_iff, Option.map_eq_some_iff, release?_eq_some_iff]
  refine exists_congr fun components => and_congr_right fun hwrites => ?_
  rw [raise?_eq (hindex hwrites.nonempty)]
  constructor
  · rintro ⟨raised, hraised, rfl⟩
    split at hraised
    · next hlt =>
      obtain rfl := Option.some.inj hraised
      exact ⟨hlt, rfl⟩
    · cases hraised
  · rintro ⟨hlt, rfl⟩
    exact ⟨_, if_pos hlt, rfl⟩

theorem Writes.bound?_eq {version : String} {components : List Nat} (h : Writes version components)
    {index : List Nat → Nat} (hk : index components < components.length)
    (hlt : components.getD (index components) 0 + 1 < componentLimit) :
    bound? index version = some (text (raised components (index components))) := by
  rw [bound?, h.release?_eq, Option.bind_some, raise?_eq hk, if_pos hlt, Option.map_some]

theorem caretIndex_lt_length {components : List Nat} (h : components ≠ []) :
    caretIndex components < components.length := (isPivot_caretIndex h).lt_length

theorem tildeIndex_lt_length {components : List Nat} (h : components ≠ []) :
    tildeIndex components < components.length := by
  have hpos := List.length_pos_iff.mpr h
  unfold tildeIndex
  split <;> omega

theorem Writes.raised {version : String} {components : List Nat} (h : Writes version components)
    {k : Nat} (hk : k < components.length) (hlt : components.getD k 0 + 1 < componentLimit) :
    Writes (text (raised components k)) (raised components k) := by
  have hlen := h.length_le
  refine ⟨rfl, by simp [Version.raised], ?_, fun n hn => ?_⟩
  · simp only [Version.raised, List.length_append, List.length_take, List.length_singleton]
    omega
  · rcases List.mem_append.mp hn with hn | hn
    · exact h.lt_limit n (List.mem_of_mem_take hn)
    · rw [List.mem_singleton.mp hn]
      exact hlt

end Version

end EnvSpec
