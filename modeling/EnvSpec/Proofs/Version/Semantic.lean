import EnvSpec.Proofs.Version.Release

/-!
# Semantic versions

A semantic version has exactly three components, then perhaps a pre-release tag behind a hyphen, and
then perhaps a build tag behind a plus sign. A tag is a list of identifiers between dots. What a
reader of semantic versions has to accept is said here by how they are written, and there is a
reader that does.
-/
namespace EnvSpec

/-- Three components, and the identifiers of two tags. A tag without identifiers is not written. -/
structure SemanticVersion where
  major : Nat
  minor : Nat
  patch : Nat
  prerelease : List String
  build : List String
deriving Repr, DecidableEq

namespace SemanticVersion

def components (v : SemanticVersion) : List Nat := [v.major, v.minor, v.patch]

def isIdentifierChar (c : Char) : Bool := c.isAlphanum || c == '-'

def isBuildIdentifier (s : String) : Bool := !s.toList.isEmpty && s.toList.all isIdentifierChar

/-- Before a release, an identifier of digits alone has no superfluous zeros in front. -/
def isPrereleaseIdentifier (s : String) : Bool :=
  isBuildIdentifier s &&
    !(s.toList.all Char.isDigit && s.toList.length > 1 && s.toList.head? == some '0')

/-- A text with a tag of these identifiers behind it. -/
def tagged (mark : Char) (identifiers : List String) (text : String) : String :=
  if identifiers = [] then text
  else text ++ String.singleton mark ++ Text.join '.' identifiers

def text (v : SemanticVersion) : String :=
  tagged '+' v.build (tagged '-' v.prerelease (Version.text v.components))

structure Valid (v : SemanticVersion) : Prop where
  lt_limit : ∀ n ∈ v.components, n < Version.componentLimit
  prerelease : ∀ s ∈ v.prerelease, isPrereleaseIdentifier s = true
  build : ∀ s ∈ v.build, isBuildIdentifier s = true

/-- The reader accepts the texts of the valid semantic versions, each as its version, and nothing
else. -/
def IsReader (read : String → Option SemanticVersion) : Prop :=
  ∀ text v, read text = some v ↔ v.Valid ∧ v.text = text

theorem isIdentifierChar_of_mem {s : String} (h : isBuildIdentifier s = true) {c : Char}
    (hc : c ∈ s.toList) : isIdentifierChar c = true := by
  rw [isBuildIdentifier, Bool.and_eq_true, List.all_eq_true] at h
  exact h.2 c hc

theorem isBuildIdentifier_of_isPrereleaseIdentifier {s : String}
    (h : isPrereleaseIdentifier s = true) : isBuildIdentifier s = true := by
  rw [isPrereleaseIdentifier, Bool.and_eq_true] at h
  exact h.1

/-- A character that is in no identifier and not a dot is not in a tag. -/
theorem not_mem_tagged {mark c : Char} {identifiers : List String} {front : String}
    (hvalid : ∀ s ∈ identifiers, isBuildIdentifier s = true) (hfront : c ∉ front.toList)
    (hmark : c ≠ mark) (hdot : c ≠ '.') (hc : isIdentifierChar c = false) :
    c ∉ (tagged mark identifiers front).toList := by
  unfold tagged
  split
  · exact hfront
  · simp only [String.toList_append, String.toList_singleton, List.mem_append, List.mem_singleton,
      not_or]
    refine ⟨⟨hfront, hmark⟩, fun hmem => ?_⟩
    rcases Text.mem_toList_join hmem with rfl | ⟨s, hs, hcs⟩
    · exact hdot rfl
    · rw [isIdentifierChar_of_mem (hvalid s hs) hcs] at hc
      cases hc

/-- The text before the first mark, and the identifiers of the tag behind it, if there is one. -/
def untag? (isIdentifier : String → Bool) (mark : Char) (text : String) :
    Option (String × List String) :=
  match Text.pieces mark text with
  | [] => none
  | [front] => some (front, [])
  | front :: rest =>
    let identifiers := Text.pieces '.' (Text.join mark rest)
    if identifiers.all isIdentifier then some (front, identifiers) else none

/-- Taking a tag off is the inverse of putting it on a text without the mark. -/
theorem untag?_eq_some_iff {isIdentifier : String → Bool} {mark : Char}
    (hvalid : ∀ s, isIdentifier s = true → isBuildIdentifier s = true) {text front : String}
    {identifiers : List String} :
    untag? isIdentifier mark text = some (front, identifiers) ↔
      mark ∉ front.toList ∧ (∀ s ∈ identifiers, isIdentifier s = true) ∧
        tagged mark identifiers front = text := by
  constructor
  · intro h
    have hjoin := Text.join_pieces mark text
    have hfree : ∀ piece ∈ Text.pieces mark text, mark ∉ piece.toList :=
      fun piece hpiece => Text.not_mem_of_mem_pieces hpiece
    unfold untag? at h
    split at h
    · cases h
    · next first hpieces =>
      obtain ⟨rfl, rfl⟩ := Prod.mk.inj (Option.some.inj h)
      rw [hpieces, Text.join_singleton] at hjoin
      rw [hpieces] at hfree
      exact ⟨hfree _ (List.mem_singleton_self _), List.forall_mem_nil _, hjoin⟩
    · next first rest hrest hpieces =>
      simp only at h
      split at h
      · next hall =>
        obtain ⟨rfl, rfl⟩ := Prod.mk.inj (Option.some.inj h)
        rw [hpieces, Text.join_cons_of_ne_nil mark _ hrest] at hjoin
        rw [hpieces] at hfree
        refine ⟨hfree _ List.mem_cons_self, List.all_eq_true.mp hall, ?_⟩
        rw [tagged, if_neg (Text.pieces_ne_nil _ _), Text.join_pieces, hjoin]
      · cases h
  · rintro ⟨hfront, hids, rfl⟩
    by_cases hnil : identifiers = []
    · rw [tagged, if_pos hnil, untag?, Text.pieces_of_not_mem hfront, hnil]
    have hdot : ∀ s ∈ identifiers, '.' ∉ s.toList := by
      intro s hs hmem
      exact absurd (isIdentifierChar_of_mem (hvalid s (hids s hs)) hmem) (by decide)
    obtain ⟨first, rest, hrest⟩ :=
      List.exists_cons_of_ne_nil (Text.pieces_ne_nil mark (Text.join '.' identifiers))
    have hjoin : Text.join mark (first :: rest) = Text.join '.' identifiers := by
      rw [← hrest, Text.join_pieces]
    have hread : Text.pieces '.' (Text.join mark (first :: rest)) = identifiers := by
      rw [hjoin, Text.pieces_join '.' identifiers hnil hdot]
    rw [tagged, if_neg hnil, untag?, Text.pieces_append, Text.pieces_of_not_mem hfront, hrest]
    simp only [List.singleton_append, hread, List.all_eq_true.mpr hids, if_true]

/-- The components of a semantic version and both tags, the build tag from the end first. -/
def read? (text : String) : Option SemanticVersion := do
  let (rest, build) ← untag? isBuildIdentifier '+' text
  let (core, prerelease) ← untag? isPrereleaseIdentifier '-' rest
  match (Text.pieces '.' core).mapM Version.component? with
  | some [major, minor, patch] => some ⟨major, minor, patch, prerelease, build⟩
  | _ => none

theorem read?_eq_some_iff {text : String} {v : SemanticVersion} :
    read? text = some v ↔ ∃ rest core, untag? isBuildIdentifier '+' text = some (rest, v.build) ∧
      untag? isPrereleaseIdentifier '-' rest = some (core, v.prerelease) ∧
        (Text.pieces '.' core).mapM Version.component? = some v.components := by
  simp only [read?, Option.bind_eq_bind, Option.bind_eq_some_iff, Prod.exists]
  constructor
  · rintro ⟨rest, build, hbuild, core, prerelease, hprerelease, h⟩
    split at h
    · next major minor patch hcore =>
      obtain rfl := Option.some.inj h
      exact ⟨rest, core, hbuild, hprerelease, hcore⟩
    · cases h
  · rintro ⟨rest, core, hbuild, hprerelease, hcore⟩
    refine ⟨rest, v.build, hbuild, core, v.prerelease, hprerelease, ?_⟩
    rw [hcore]
    rfl

theorem isReader_read? : IsReader read? := by
  intro text v
  have hbuild := @untag?_eq_some_iff isBuildIdentifier '+' fun _ h => h
  have hprerelease := @untag?_eq_some_iff isPrereleaseIdentifier '-'
    fun _ h => isBuildIdentifier_of_isPrereleaseIdentifier h
  simp only [read?_eq_some_iff, hbuild, hprerelease, Version.mapM_component?_eq_some_iff]
  constructor
  · rintro ⟨_, _, ⟨-, hids, rfl⟩, ⟨-, hids', rfl⟩, rfl, -, hlt⟩
    exact ⟨⟨hlt, hids', hids⟩, rfl⟩
  · rintro ⟨⟨hlt, hids', hids⟩, rfl⟩
    have hcore : ∀ c, c.isDigit = false → c ≠ '.' → c ∉ (Version.text v.components).toList := by
      intro c hdigit hdot hc
      rcases Version.isDigit_or_dot_of_mem_text hc with h | h
      · rw [h] at hdigit
        cases hdigit
      · exact hdot h
    have hrest : '+' ∉ (tagged '-' v.prerelease (Version.text v.components)).toList :=
      not_mem_tagged (fun s hs => isBuildIdentifier_of_isPrereleaseIdentifier (hids' s hs))
        (hcore '+' (by decide) (by decide)) (by decide) (by decide) (by decide)
    exact ⟨_, _, ⟨hrest, hids, rfl⟩, ⟨hcore '-' (by decide) (by decide), hids', rfl⟩, rfl,
      List.cons_ne_nil _ _, hlt⟩

example : read? "1.0.0-rc.1+b-7" = some ⟨1, 0, 0, ["rc", "1"], ["b-7"]⟩ := by decide

end SemanticVersion

end EnvSpec
