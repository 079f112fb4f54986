import EnvSpec.Error
import EnvSpec.Text.Pieces

/-!
# Section paths

A section is named by the keys that lead to it, joined by dots. A path is a text none of whose
pieces between dots is empty, so the text and the list of its segments determine each other.
-/
namespace EnvSpec

structure SectionPath where
  text : String
  segment_ne : ∀ s ∈ Text.pieces '.' text, s ≠ ""
deriving DecidableEq

namespace SectionPath

def segments (p : SectionPath) : List String := Text.pieces '.' p.text

/-- The first empty piece of a text is reported by its position, counted from one. -/
def parse (text : String) : Except ManifestError SectionPath :=
  if text = "" then .error (.badPath text .empty)
  else if h : ∀ s ∈ Text.pieces '.' text, s ≠ "" then .ok ⟨text, h⟩
  else .error (.badPath text (.emptySegment ((Text.pieces '.' text).findIdx (· = "") + 1)))

/-- The path one segment below. A segment that itself has dots adds several. -/
def child (p : SectionPath) (segment : String) : Except ManifestError SectionPath :=
  parse (p.text ++ "." ++ segment)

/-- A text is a path exactly if it is the text of one. -/
theorem parse_eq_ok_iff {text : String} {p : SectionPath} : parse text = .ok p ↔ p.text = text := by
  constructor
  · intro h
    unfold parse at h
    split at h
    · cases h
    · split at h
      · cases h; rfl
      · cases h
  · rintro rfl
    have hne : p.text ≠ "" := by
      intro he
      exact p.segment_ne "" (by rw [he]; decide) rfl
    rw [parse, if_neg hne, dif_pos p.segment_ne]

theorem segments_ne_nil (p : SectionPath) : p.segments ≠ [] := Text.pieces_ne_nil '.' p.text

theorem join_segments (p : SectionPath) : Text.join '.' p.segments = p.text :=
  Text.join_pieces '.' p.text

end SectionPath

end EnvSpec
