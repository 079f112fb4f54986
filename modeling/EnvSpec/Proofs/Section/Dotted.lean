import Mathlib.Order.Bounds.Basic
import EnvSpec.Proofs.Section.Paths

/-!
# Dotted texts and their segments

A text is a path if its dots stand between other characters. Then it and the list of its segments
determine each other. Otherwise some piece between dots is empty, and the first such piece is the
one that is reported. Its position is counted from the start of the whole text, so it moves on by
the segments of a path that is put in front. A text that is put below a path is cut at its dots too,
so it is one segment only if it has none.
-/
namespace EnvSpec

namespace Text

/-- A text that is cut at a separator has an empty piece if one of its parts has. -/
theorem empty_mem_pieces_of_cut {sep : Char} {s : String} {before after : List Char}
    (hs : s.toList = before ++ sep :: after)
    (h : before = [] ∨ "" ∈ pieces sep (String.ofList after)) : "" ∈ pieces sep s := by
  have htext : s = String.ofList before ++ String.singleton sep ++ String.ofList after := by
    rw [← String.toList_inj, hs]
    simp
  rw [htext, pieces_append, List.mem_append]
  rcases h with rfl | h
  · exact Or.inl (List.mem_singleton_self _)
  · exact Or.inr h

/-- On each side of an empty piece there is a separator or an end of the text. -/
theorem separators_of_empty_mem_pieces {sep : Char} {s : String} (h : "" ∈ pieces sep s) :
    s = "" ∨ s.toList.head? = some sep ∨ s.toList.getLast? = some sep ∨
      [sep, sep] <:+: s.toList := by
  obtain ⟨before, after, hsplit⟩ := List.append_of_mem h
  have hjoin := join_pieces sep s
  rw [hsplit] at hjoin
  by_cases hbefore : before = []
  · rw [hbefore, List.nil_append] at hjoin
    by_cases hafter : after = []
    · rw [hafter, join_singleton] at hjoin
      exact Or.inl hjoin.symm
    · right; left
      rw [← hjoin, join_cons_of_ne_nil sep "" hafter]
      simp
  · rw [join_append sep hbefore (List.cons_ne_nil _ _)] at hjoin
    by_cases hafter : after = []
    · right; right; left
      rw [← hjoin, hafter, join_singleton]
      simp
    · right; right; right
      rw [join_cons_of_ne_nil sep "" hafter] at hjoin
      refine ⟨(join sep before).toList, (join sep after).toList, ?_⟩
      rw [← hjoin]
      simp

/-- A piece is empty exactly where separators stand at an end or side by side. -/
theorem empty_mem_pieces_iff {sep : Char} {s : String} :
    "" ∈ pieces sep s ↔ s = "" ∨ s.toList.head? = some sep ∨ s.toList.getLast? = some sep ∨
      [sep, sep] <:+: s.toList := by
  constructor
  · exact separators_of_empty_mem_pieces
  · have hempty : "" ∈ pieces sep (String.ofList []) := List.mem_singleton_self _
    rintro (rfl | hhead | hlast | ⟨before, after, hinfix⟩)
    · exact hempty
    · obtain ⟨rest, hrest⟩ := List.head?_eq_some_iff.mp hhead
      exact empty_mem_pieces_of_cut (hrest.trans (List.nil_append _).symm) (Or.inl rfl)
    · obtain ⟨rest, hrest⟩ := List.getLast?_eq_some_iff.mp hlast
      exact empty_mem_pieces_of_cut hrest (Or.inr hempty)
    · have hs : s.toList = before ++ sep :: (sep :: after) := by
        rw [← hinfix]
        simp
      have hafter : (String.ofList (sep :: after)).toList = [] ++ sep :: after := by simp
      exact empty_mem_pieces_of_cut hs (Or.inr (empty_mem_pieces_of_cut hafter (Or.inl rfl)))

end Text

namespace SectionPath

/-- Dots stand between other characters only. -/
structure WellDotted (text : String) : Prop where
  nonempty : text ≠ ""
  no_leading : text.toList.head? ≠ some '.'
  no_trailing : text.toList.getLast? ≠ some '.'
  no_adjacent : ¬['.', '.'] <:+: text.toList

structure IsSegment (s : String) : Prop where
  nonempty : s ≠ ""
  no_dot : '.' ∉ s.toList

/-- The positions of the empty pieces, counted from one. -/
def emptyPositions (text : String) : Set Nat :=
  {k | ∃ i, (Text.pieces '.' text)[i]? = some "" ∧ k = i + 1}

theorem forall_pieces_ne_iff {text : String} :
    (∀ s ∈ Text.pieces '.' text, s ≠ "") ↔ WellDotted text := by
  have hmem : (∀ s ∈ Text.pieces '.' text, s ≠ "") ↔ "" ∉ Text.pieces '.' text :=
    List.forall_mem_ne'
  rw [hmem, Text.empty_mem_pieces_iff]
  simp only [not_or]
  exact ⟨fun ⟨h1, h2, h3, h4⟩ => ⟨h1, h2, h3, h4⟩, fun ⟨h1, h2, h3, h4⟩ => ⟨h1, h2, h3, h4⟩⟩

theorem exists_parse_eq_ok_iff {text : String} : (∃ p, parse text = .ok p) ↔ WellDotted text := by
  simp only [parse_eq_ok_iff, ← forall_pieces_ne_iff]
  constructor
  · rintro ⟨p, rfl⟩
    exact p.segment_ne
  · intro h
    exact ⟨⟨text, h⟩, rfl⟩

theorem isSegment_of_mem (p : SectionPath) {s : String} (hs : s ∈ p.segments) : IsSegment s :=
  ⟨p.segment_ne s hs, Text.not_mem_of_mem_pieces hs⟩

/-- Segments are the segments of their join. -/
theorem exists_parse_join {segments : List String} (hne : segments ≠ [])
    (h : ∀ s ∈ segments, IsSegment s) :
    ∃ p, parse (Text.join '.' segments) = .ok p ∧ p.segments = segments := by
  have hpieces := Text.pieces_join '.' segments hne fun s hs => (h s hs).no_dot
  refine ⟨⟨Text.join '.' segments, fun s hs => ?_⟩, parse_eq_ok_iff.mpr rfl, hpieces⟩
  rw [hpieces] at hs
  exact (h s hs).nonempty

theorem isLeast_emptyPositions {text : String} (h : "" ∈ Text.pieces '.' text) :
    IsLeast (emptyPositions text) ((Text.pieces '.' text).findIdx (· = "") + 1) := by
  constructor
  · have hlt : (Text.pieces '.' text).findIdx (· = "") < (Text.pieces '.' text).length :=
      List.findIdx_lt_length_of_exists ⟨"", h, by decide⟩
    have hfound := List.findIdx_getElem (w := hlt)
    refine ⟨_, ?_, rfl⟩
    rw [List.getElem?_eq_getElem hlt, Option.some.injEq]
    simpa using hfound
  · rintro k ⟨i, hi, rfl⟩
    obtain ⟨hlt, hi⟩ := List.getElem?_eq_some_iff.mp hi
    have hle : (Text.pieces '.' text).findIdx (· = "") ≤ i := by
      by_contra hbefore
      have hother := List.not_of_lt_findIdx (Nat.lt_of_not_le hbefore)
      simp [hi] at hother
    omega

/-- A text that is not empty is refused for its first empty piece. -/
theorem parse_eq_error_iff {text : String} (hne : text ≠ "") {e : ManifestError} :
    parse text = .error e ↔
      ∃ k, IsLeast (emptyPositions text) k ∧ e = .badPath text (.emptySegment k) := by
  unfold parse
  rw [if_neg hne]
  constructor
  · intro h
    split at h
    · cases h
    · next hpath =>
      have hempty : "" ∈ Text.pieces '.' text := by
        by_contra hno
        exact hpath (List.forall_mem_ne'.mpr hno)
      exact ⟨_, isLeast_emptyPositions hempty, (Except.error.inj h).symm⟩
  · rintro ⟨k, hk, rfl⟩
    obtain ⟨i, hi, -⟩ := hk.1
    have hempty : "" ∈ Text.pieces '.' text := List.mem_of_getElem? hi
    rw [dif_neg fun h => h "" hempty rfl, (isLeast_emptyPositions hempty).unique hk]

/-- A path put in front moves the empty pieces on by its segments. -/
theorem isLeast_emptyPositions_child (p : SectionPath) {segment : String} {k : Nat}
    (hk : IsLeast (emptyPositions segment) k) :
    IsLeast (emptyPositions (p.text ++ "." ++ segment)) (p.segments.length + k) := by
  have hpieces : Text.pieces '.' (p.text ++ "." ++ segment) =
      p.segments ++ Text.pieces '.' segment := Text.pieces_append '.' p.text segment
  obtain ⟨⟨i, hi, rfl⟩, hleast⟩ := hk
  constructor
  · refine ⟨p.segments.length + i, ?_, by omega⟩
    rw [hpieces, List.getElem?_append_right (by omega), Nat.add_sub_cancel_left, hi]
  · rintro k ⟨j, hj, rfl⟩
    rw [hpieces] at hj
    by_cases hlt : j < p.segments.length
    · rw [List.getElem?_append_left hlt] at hj
      exact absurd rfl (p.segment_ne "" (List.mem_of_getElem? hj))
    · rw [List.getElem?_append_right (by omega)] at hj
      have hle := hleast ⟨_, hj, rfl⟩
      omega

/-- Paths and lists of segments determine each other, and a text that is no path is refused with the
position of its first empty piece, which below a path is counted from the start of that path. -/
theorem parse_determines_segments :
    (∀ text, (∃ p, parse text = .ok p) ↔ WellDotted text) ∧
    (∀ text p, parse text = .ok p → p.segments ≠ [] ∧ (∀ s ∈ p.segments, IsSegment s) ∧
      Text.join '.' p.segments = text) ∧
    (∀ segments, segments ≠ [] → (∀ s ∈ segments, IsSegment s) →
      ∃ p, parse (Text.join '.' segments) = .ok p ∧ p.segments = segments) ∧
    (∀ text e, text ≠ "" → parse text = .error e →
      ∃ k, IsLeast (emptyPositions text) k ∧ e = .badPath text (.emptySegment k) ∧
        e.message = s!"Invalid section path `{text}`: " ++ s!"empty segment at position {k}") ∧
    (∀ (p : SectionPath) segment k, segment ≠ "" →
      parse segment = .error (.badPath segment (.emptySegment k)) →
      p.child segment = .error (.badPath (p.text ++ "." ++ segment)
        (.emptySegment (p.segments.length + k)))) := by
  refine ⟨fun text => exists_parse_eq_ok_iff, fun text p h => ?_,
    fun segments hne h => exists_parse_join hne h, fun text e hne h => ?_,
    fun p segment k hne h => ?_⟩
  · refine ⟨p.segments_ne_nil, fun s hs => p.isSegment_of_mem hs, ?_⟩
    rw [p.join_segments, parse_eq_ok_iff.mp h]
  · obtain ⟨k, hk, rfl⟩ := (parse_eq_error_iff hne).mp h
    exact ⟨k, hk, rfl, rfl⟩
  · obtain ⟨k', hk, he⟩ := (parse_eq_error_iff hne).mp h
    cases he
    have hchild : p.text ++ "." ++ segment ≠ "" := by
      intro hempty
      rw [← String.toList_inj] at hempty
      simp at hempty
    exact (parse_eq_error_iff hchild).mpr ⟨_, p.isLeast_emptyPositions_child hk, rfl⟩

def condaBase : SectionPath := ⟨"tool.conda", by decide⟩

/-- A list of two segments, a text with an empty piece, and the same text below a path. -/
theorem parse_determines_segments_conda :
    (∃ p, parse "tool.conda" = .ok p ∧ p.segments = ["tool", "conda"]) ∧
    IsLeast (emptyPositions "cpu..x.") 2 ∧
    condaBase.child "cpu..x." = .error (.badPath "tool.conda.cpu..x." (.emptySegment 4)) := by
  obtain ⟨-, -, hjoin, hposition, hchild⟩ := parse_determines_segments
  have hsegment : ∀ s ∈ ["tool", "conda"], IsSegment s := by
    intro s hs
    rcases List.mem_cons.mp hs with rfl | hs
    · exact ⟨by decide, by decide⟩
    · obtain rfl := List.mem_singleton.mp hs
      exact ⟨by decide, by decide⟩
  have hne : "cpu..x." ≠ "" := by decide
  have hrefused : parse "cpu..x." = .error (.badPath "cpu..x." (.emptySegment 2)) := by rfl
  obtain ⟨k, hk, he, -⟩ := hposition _ _ hne hrefused
  cases he
  exact ⟨hjoin ["tool", "conda"] (by decide) hsegment, hk, hchild condaBase _ 2 hne hrefused⟩

/-- What can be put below a path is what could be a path itself. -/
theorem exists_child_iff (p : SectionPath) {segment : String} :
    (∃ q, p.child segment = .ok q) ↔ WellDotted segment := by
  rw [← forall_pieces_ne_iff]
  constructor
  · rintro ⟨q, hq⟩ piece hpiece
    have hmem : piece ∈ q.segments := by
      rw [segments_child hq]
      exact List.mem_append_right _ hpiece
    exact q.segment_ne piece hmem
  · intro h
    exact exists_child h p

/-- Below a path the new segment is cut at its dots: each of them adds one more segment. So the path
gets longer by one segment, and this is the text that was given, exactly if no dot is in it. -/
theorem child_appends_one_iff (p : SectionPath) (segment : String) :
    ((∃ q, p.child segment = .ok q) ↔ WellDotted segment) ∧
    ∀ q, p.child segment = .ok q →
      q.segments = p.segments ++ Text.pieces '.' segment ∧
      q.segments.length = p.segments.length + segment.toList.count '.' + 1 ∧
      (q.segments = p.segments ++ [segment] ↔ '.' ∉ segment.toList) := by
  refine ⟨p.exists_child_iff, fun q hq => ?_⟩
  have hsegments := segments_child hq
  refine ⟨hsegments, ?_, ?_⟩
  · rw [hsegments, List.length_append, Text.length_pieces, Nat.add_assoc]
  · rw [hsegments, List.append_cancel_left_eq, Text.pieces_eq_singleton_iff]

/-- A key without a dot, and the path one segment below. -/
theorem child_appends_one_iff_cpu :
    ∃ q, condaBase.child "cpu" = .ok q ∧ q.segments = ["tool", "conda"] ++ ["cpu"] := by
  obtain ⟨hexists, happended⟩ := child_appends_one_iff condaBase "cpu"
  obtain ⟨q, hq⟩ := hexists.mpr ⟨by decide, by decide, by decide, by decide⟩
  obtain ⟨-, -, hone⟩ := happended q hq
  exact ⟨q, hq, hone.mpr (by decide)⟩

/-- A key with a dot in it becomes two segments. -/
theorem dottedKey_appends_two :
    ∃ q, condaBase.child "cpu.x" = .ok q ∧ q.segments = ["tool", "conda", "cpu", "x"] ∧
      q.segments ≠ condaBase.segments ++ ["cpu.x"] :=
  ⟨⟨"tool.conda.cpu.x", by decide⟩, by rfl, by decide, by decide⟩

end SectionPath

end EnvSpec
