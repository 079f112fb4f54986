/-!
# Pieces between separators

A text is cut at every occurrence of one separator character. Cutting and joining are inverse:
the pieces joined by the separator are the text, and pieces free of the separator are got back
from their join.
-/
namespace EnvSpec.Text

/-- The pieces of `s` between occurrences of `sep`; there is one more piece than separators. -/
def pieces (sep : Char) (s : String) : List String := (s.toList.splitOn sep).map String.ofList

def join (sep : Char) (ps : List String) : String := (String.singleton sep).intercalate ps

theorem toList_join (sep : Char) (ps : List String) :
    (join sep ps).toList = [sep].intercalate (ps.map String.toList) := by
  simp [join, String.toList_intercalate]

theorem join_singleton (sep : Char) (p : String) : join sep [p] = p := by
  rw [← String.toList_inj, toList_join]
  simp

theorem join_cons_cons (sep : Char) (p q : String) (ps : List String) :
    join sep (p :: q :: ps) = p ++ String.singleton sep ++ join sep (q :: ps) := by
  rw [← String.toList_inj, toList_join]
  simp [toList_join, List.append_assoc]

theorem map_toList_pieces (sep : Char) (s : String) :
    (pieces sep s).map String.toList = s.toList.splitOn sep := by
  simp [pieces, Function.comp_def]

theorem join_pieces (sep : Char) (s : String) : join sep (pieces sep s) = s := by
  rw [← String.toList_inj, toList_join, map_toList_pieces, List.intercalate_splitOn]

theorem pieces_ne_nil (sep : Char) (s : String) : pieces sep s ≠ [] := by
  simp [pieces, List.splitOn_ne_nil]

theorem pieces_join (sep : Char) (ps : List String) (hne : ps ≠ [])
    (hfree : ∀ p ∈ ps, sep ∉ p.toList) : pieces sep (join sep ps) = ps := by
  have h : (join sep ps).toList.splitOn sep = ps.map String.toList := by
    rw [toList_join]
    apply List.splitOn_intercalate
    · simpa using hfree
    · simpa using hne
  simp [pieces, h, Function.comp_def]

end EnvSpec.Text
