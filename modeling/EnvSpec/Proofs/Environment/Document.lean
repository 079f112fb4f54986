import EnvSpec.Environment.Yaml
import EnvSpec.Proofs.Yaml.Scalar

/-!
# Environment files are legible

The document has no marks for what its parts are. A spec is a scalar where the item for pip is a
mapping, channels are left out if there are none, and a list ends where the text goes on with
something else. Still no two environments are written alike: every part shows by how it begins what
it is, and ends before the text that can follow it.
-/
namespace EnvSpec

open Text (Legible)

namespace Yaml

theorem ends_nil {indent : Nat} (h : 0 < indent) : Ends indent [] where
  unbroken c hc := nomatch hc
  unindented hprefix := by
    have hlen := hprefix.length_le
    rw [List.length_replicate, List.length_nil] at hlen
    omega

/-- A text that is indented less ends the lines of a scalar. -/
theorem ends_replicate {width indent : Nat} (h : width < indent) {c : Char}
    (hbreak : isBreak c = false) (hspace : c ≠ ' ') (r : List Char) :
    Ends indent (List.replicate width ' ' ++ c :: r) where
  unbroken d hd := by
    cases width with
    | zero =>
      obtain rfl : c = d := Option.some.inj hd
      exact hbreak
    | succ width =>
      obtain rfl : ' ' = d := Option.some.inj hd
      rfl
  unindented hprefix := by
    obtain ⟨more, rfl⟩ := Nat.exists_eq_add_of_lt h
    rw [Nat.add_assoc, ← List.replicate_append_replicate, List.prefix_append_right_inj,
      List.replicate_succ, List.cons_prefix_cons] at hprefix
    exact hspace hprefix.1.symm

theorem ends_of_head {indent : Nat} (h : 0 < indent) {c : Char} (hbreak : isBreak c = false)
    (hspace : c ≠ ' ') {r : List Char} (hr : r.head? = some c) : Ends indent r := by
  obtain ⟨more, rfl⟩ := List.head?_eq_some_iff.mp hr
  exact ends_replicate h hbreak hspace more

/-- A text that ends indented lines ends those that are indented more. -/
theorem Ends.mono {indent more : Nat} {r : List Char} (h : Ends indent r) :
    Ends (indent + more) r where
  unbroken := h.unbroken
  unindented hprefix := by
    rw [← List.replicate_append_replicate] at hprefix
    exact h.unindented ((List.prefix_append _ _).trans hprefix)

theorem ends_listItem (indent : Nat) (s : String) (r : List Char) :
    Ends (indent + indentStep) (listItem indent s ++ r) := by
  rw [listItem, List.append_assoc]
  exact ends_replicate (Nat.lt_add_of_pos_right (by decide)) rfl (by decide) _

theorem legible_listItem (indent : Nat) : Legible (listItem indent) (Ends (indent + indentStep)) :=
  ((legible_scalar (indent + indentStep)).behind ['-', ' ']).behind (List.replicate indent ' ')

/-- The text does not go on with items of a list that is indented by `indent`. -/
structure EndsList (indent : Nat) (r : List Char) : Prop where
  ends : Ends (indent + indentStep) r
  apart : ∀ s more, r ≠ listItem indent s ++ more

theorem legible_listItems (indent : Nat) :
    Legible (List.flatMap (listItem indent)) (EndsList indent) :=
  (legible_listItem indent).flatMap (ends_listItem indent) (fun _ h => h.ends) fun s r h =>
    h.apart s r rfl

/-- A key with a list, in one line if the list is empty. -/
def block {α : Type} (write : α → List Char) (key : String) (items : List α) : List Char :=
  if items.isEmpty then key.toList ++ ": []\n".toList
  else key.toList ++ ":\n".toList ++ items.flatMap write

/-- An empty list can be told from one that is not empty. -/
theorem legible_block {α : Type} {write : α → List Char} {Stop : List Char → Prop}
    (h : Legible (List.flatMap write) Stop) (key : String) : Legible (block write key) Stop := by
  have hnil : block write key [] = key.toList ++ ": []\n".toList := rfl
  have hcons (a : α) (as : List α) :
      block write key (a :: as) = key.toList ++ (":\n".toList ++ (a :: as).flatMap write) := by
    rw [← List.append_assoc]
    rfl
  intro as bs r r' hr hr' heq
  cases as with
  | nil =>
    cases bs with
    | nil => exact ⟨rfl, List.append_cancel_left heq⟩
    | cons b bs =>
      simp only [hnil, hcons, List.append_assoc] at heq
      cases List.append_cancel_left heq
  | cons a as =>
    cases bs with
    | nil =>
      simp only [hnil, hcons, List.append_assoc] at heq
      cases List.append_cancel_left heq
    | cons b bs =>
      rw [hcons, hcons] at heq
      exact ((h.behind ":\n".toList).behind key.toList) hr hr' heq

theorem legible_stringList (indent : Nat) (key : String) :
    Legible (stringList indent key) (EndsList indent) :=
  legible_block (legible_listItems indent) key

/-- What ends indented lines ends a list with the same indentation. -/
theorem Ends.endsList {indent : Nat} {r : List Char} (h : Ends indent r) : EndsList indent r where
  ends := h.mono
  apart s more hr := by
    rw [listItem, List.append_assoc] at hr
    exact h.unindented ⟨_, hr.symm⟩

end Yaml

open Yaml

namespace Dependency

theorem ends_yaml (d : Dependency) (r : List Char) : Ends indentStep (d.yaml ++ r) := by
  cases d with
  | spec text => exact ends_listItem 0 text r
  | pip lines => exact ends_of_head (c := '-') (by decide) rfl (by decide) rfl

/-- No spec is written as the item for pip: a scalar with the key of that item would be quoted. -/
theorem yaml_spec_ne_yaml_pip (text : String) (lines : List String) (r r' : List Char) :
    (spec text).yaml ++ r ≠ (pip lines).yaml ++ r' := by
  intro heq
  change ['-', ' '] ++ (endLine (scalar indentStep text) ++ r) =
    ['-', ' '] ++ (stringList indentStep "pip" lines ++ r') at heq
  have hscalar := List.append_cancel_left heq
  unfold stringList at hscalar
  split at hscalar
  · have hstyle := style_of_line "pip: []".toList hscalar (by decide) (by decide)
    exact absurd hstyle (by decide)
  · rw [List.append_assoc] at hscalar
    have hstyle := style_of_line "pip:".toList hscalar (by decide) (by decide)
    exact absurd hstyle (by decide)

theorem legible_yaml : Legible yaml (Ends indentStep) := by
  intro a b r r' hr hr' heq
  cases a with
  | spec text =>
    cases b with
    | spec text' =>
      obtain ⟨rfl, hrest⟩ := legible_listItem 0 hr hr' heq
      exact ⟨rfl, hrest⟩
    | pip lines => exact absurd heq (yaml_spec_ne_yaml_pip text lines r r')
  | pip lines =>
    cases b with
    | spec text => exact absurd heq.symm (yaml_spec_ne_yaml_pip text lines r' r)
    | pip lines' =>
      have hitem := (legible_stringList indentStep "pip").behind "- ".toList
      obtain ⟨rfl, hrest⟩ := hitem hr.endsList hr'.endsList heq
      exact ⟨rfl, hrest⟩

end Dependency

namespace Environment

theorem legible_nameYaml : Legible nameYaml (Ends indentStep) :=
  (legible_scalar indentStep).behind "name: ".toList

theorem legible_dependenciesYaml : Legible dependenciesYaml (· = []) := by
  have hitems : Legible (List.flatMap Dependency.yaml) (· = []) := by
    refine Dependency.legible_yaml.flatMap Dependency.ends_yaml (fun r hr => ?_) fun d r hr => ?_
    · rw [hr]
      exact ends_nil (by decide)
    · cases d <;> cases hr
  exact legible_block hitems "dependencies"

theorem head?_dependenciesYaml (dependencies : List Dependency) :
    (dependenciesYaml dependencies).head? = some 'd' := by
  unfold dependenciesYaml
  split <;> rfl

theorem head?_channelsYaml_cons (channel : String) (channels : List String) (r : List Char) :
    (channelsYaml (channel :: channels) ++ r).head? = some 'c' := rfl

/-- The key of the dependencies ends the channels, and is not taken for theirs. -/
theorem legible_channelsYaml : Legible channelsYaml fun r => r.head? = some 'd' := by
  have hends {r : List Char} (hr : r.head? = some 'd') : EndsList 0 r := by
    refine ⟨ends_of_head (by decide) rfl (by decide) hr, fun s more hitem => ?_⟩
    rw [hitem] at hr
    cases hr
  intro cs cs' r r' hr hr' heq
  cases cs with
  | nil =>
    cases cs' with
    | nil => exact ⟨rfl, heq⟩
    | cons c' cs' =>
      rw [show r = _ from heq, head?_channelsYaml_cons] at hr
      cases hr
  | cons c cs =>
    cases cs' with
    | nil =>
      rw [← show _ = r' from heq, head?_channelsYaml_cons] at hr'
      cases hr'
    | cons c' cs' => exact legible_stringList 0 "channels" (hends hr) (hends hr') heq

/-- What comes after the name ends its scalar. -/
theorem ends_channelsYaml (channels : List String) (dependencies : List Dependency) :
    Ends indentStep (channelsYaml channels ++ dependenciesYaml dependencies) := by
  cases channels with
  | nil => exact ends_of_head (by decide) rfl (by decide) (head?_dependenciesYaml dependencies)
  | cons channel channels =>
    exact ends_of_head (by decide) rfl (by decide) (head?_channelsYaml_cons channel channels _)

theorem toList_yaml (e : Environment) :
    e.yaml.toList =
      nameYaml e.name ++ (channelsYaml e.channels ++ dependenciesYaml e.dependencies) := by
  rw [yaml, String.toList_ofList, List.append_assoc]

/-- Environments are written alike only if they are equal: the document shows the name, the channels
and the dependencies, which of these are specs, and what the item for pip lists, whatever characters
are in the strings. -/
theorem yaml_inj {e f : Environment} : e.yaml = f.yaml ↔ e = f := by
  constructor
  · intro heq
    have htext := congrArg String.toList heq
    rw [toList_yaml, toList_yaml] at htext
    obtain ⟨hname, hafter⟩ := legible_nameYaml (ends_channelsYaml e.channels e.dependencies)
      (ends_channelsYaml f.channels f.dependencies) htext
    obtain ⟨hchannels, hlast⟩ := legible_channelsYaml (head?_dependenciesYaml e.dependencies)
      (head?_dependenciesYaml f.dependencies) hafter
    obtain ⟨hdependencies, -⟩ := legible_dependenciesYaml rfl rfl
      (congrArg (· ++ []) hlast)
    cases e
    cases f
    rw [Environment.mk.injEq]
    exact ⟨hname, hchannels, hdependencies⟩
  · rintro rfl
    rfl

example :
    yaml ⟨"myia", [], [.spec "pip:", .pip ["- a\n- b"]]⟩ =
      "name: myia\ndependencies:\n- 'pip:'\n- pip:\n  - |-\n    - a\n    - b\n" := by
  decide

end Environment

end EnvSpec
