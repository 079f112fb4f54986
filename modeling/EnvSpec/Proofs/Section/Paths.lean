import EnvSpec.Section.Variant
import EnvSpec.Proofs.Text.Cutting

/-!
# Paths below paths

The path below a path is read from a text again, in which the new segment stands behind a dot. It
has the segments of the path and then the pieces of the new one, so it exists if none of these is
empty. The section of a variant is such a path, and its name is a single piece.
-/
namespace EnvSpec

namespace SectionPath

theorem segments_child {p q : SectionPath} {segment : String} (h : p.child segment = .ok q) :
    q.segments = p.segments ++ Text.pieces '.' segment := by
  rw [segments, parse_eq_ok_iff.mp h]
  exact Text.pieces_append '.' p.text segment

theorem exists_child {segment : String} (h : ∀ piece ∈ Text.pieces '.' segment, piece ≠ "")
    (p : SectionPath) : ∃ q, p.child segment = .ok q := by
  have hne : ∀ s ∈ Text.pieces '.' (p.text ++ "." ++ segment), s ≠ "" := by
    intro s hs
    have hpieces := Text.pieces_append '.' p.text segment
    rw [show String.singleton '.' = "." from rfl] at hpieces
    rw [hpieces] at hs
    rcases List.mem_append.mp hs with hs | hs
    · exact p.segment_ne s hs
    · exact h s hs
  exact ⟨⟨_, hne⟩, parse_eq_ok_iff.mpr rfl⟩

end SectionPath

theorem Variant.pieces_sectionName (v : Variant) :
    Text.pieces '.' v.sectionName = [v.sectionName] := by
  cases v <;> decide

/-- Every path has a section of each variant below it, one segment further. -/
theorem SectionPath.exists_child_sectionName (p : SectionPath) (v : Variant) :
    ∃ q, p.child v.sectionName = .ok q ∧ q.segments = p.segments ++ [v.sectionName] := by
  have hne : ∀ piece ∈ Text.pieces '.' v.sectionName, piece ≠ "" := by
    cases v <;> decide
  obtain ⟨q, hq⟩ := p.exists_child hne
  exact ⟨q, hq, by rw [segments_child hq, v.pieces_sectionName]⟩

namespace Selection

/-- A base without a variant is a path as it stands. -/
theorem path_none (base : String) : path ⟨base, none⟩ = SectionPath.parse base := by
  unfold path
  cases SectionPath.parse base <;> rfl

section Base
variable {base : String} {p : SectionPath} (h : SectionPath.parse base = .ok p)
include h

theorem path_child (v : Variant) : path ⟨base, some v⟩ = p.child v.sectionName := by
  unfold path
  rw [h]
  rfl

/-- A base with a variant is the dotted path of the variant's section. -/
theorem path_some (v : Variant) :
    path ⟨base, some v⟩ = path ⟨base ++ "." ++ v.sectionName, none⟩ := by
  rw [path_none, path_child h, SectionPath.child, SectionPath.parse_eq_ok_iff.mp h]

end Base

end Selection

end EnvSpec
