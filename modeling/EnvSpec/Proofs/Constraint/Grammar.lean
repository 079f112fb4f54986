import Mathlib.Data.List.Forall2
import EnvSpec.Proofs.Constraint.Written

/-!
# The grammar of constraints

Which texts are constraints, and what they say, without going through the steps of reading them. A
clause is spelled by a part between commas if the part is a symbol, blanks and a version. Of several
symbols at the front of a part the longest counts. Reading gives exactly the clauses that are
spelled, and refuses every text in which some part spells none.
-/
namespace EnvSpec

/-- The symbol of the operator is at the front, and no longer symbol is. As the symbol of `bare` is
empty, `bare` is the longest where no other symbol is at the front. -/
structure Operator.Longest (op : Operator) (cs : List Char) : Prop where
  front : op.symbol.toList <+: cs
  longest : ∀ other : Operator, other.symbol.toList <+: cs →
    other.symbol.toList.length ≤ op.symbol.toList.length

namespace Operator

theorem symbol_injective {a b : Operator} (h : a.symbol.toList = b.symbol.toList) : a = b := by
  revert h
  cases a <;> cases b <;> decide

theorem mem_marked {op : Operator} (h : op ≠ bare) : op ∈ marked := by
  cases op <;> first | exact absurd rfl h | decide

/-- No symbol is tried after one that it begins with. -/
theorem marked_pairwise : marked.Pairwise fun a b => ¬a.symbol.toList <+: b.symbol.toList := by
  decide

theorem Longest.unique {a b : Operator} {cs : List Char} (ha : a.Longest cs) (hb : b.Longest cs) :
    a = b := by
  have hlen := Nat.le_antisymm (hb.longest a ha.front) (ha.longest b hb.front)
  have hpre := List.prefix_of_prefix_length_le ha.front hb.front (Nat.le_of_eq hlen)
  exact symbol_injective (hpre.eq_of_length hlen)

theorem longest_bare_iff {cs : List Char} :
    bare.Longest cs ↔ ∀ op ∈ marked, ¬op.symbol.toList <+: cs := by
  constructor
  · intro h op hop hfront
    have hempty := List.eq_nil_of_length_eq_zero (Nat.le_zero.mp (h.longest op hfront))
    rw [symbol_injective (a := op) (b := bare) hempty] at hop
    exact absurd hop (by decide)
  · intro h
    refine ⟨List.nil_prefix, fun other hother => ?_⟩
    by_cases hbare : other = bare
    · exact Nat.le_of_eq (by rw [hbare])
    · exact absurd hother (h other (mem_marked hbare))

/-- The first symbol that fits is the longest one. -/
theorem longest_leading (cs : List Char) : (leading cs).Longest cs := by
  unfold leading
  cases hfind : marked.find? fun op => op.symbol.toList.isPrefixOf cs with
  | none =>
    have hmiss := List.find?_eq_none.mp hfind
    exact longest_bare_iff.mpr fun op hop hfront =>
      hmiss op hop (List.isPrefixOf_iff_prefix.mpr hfront)
  | some op =>
    obtain ⟨hop, before, after, hsplit, hbefore⟩ := List.find?_eq_some_iff_append.mp hfind
    have hfront := List.isPrefixOf_iff_prefix.mp hop
    refine ⟨hfront, fun other hother => ?_⟩
    show other.symbol.toList.length ≤ op.symbol.toList.length
    by_cases hbare : other = bare
    · rw [hbare]
      exact Nat.zero_le _
    -- The other symbol is tried too, and not before: there nothing fits.
    have hmem := mem_marked hbare
    rw [hsplit] at hmem
    rcases List.mem_append.mp hmem with hmem | hmem
    · have hmiss := hbefore other hmem
      rw [List.isPrefixOf_iff_prefix.mpr hother] at hmiss
      exact absurd hmiss (by decide)
    rcases List.mem_cons.mp hmem with rfl | hmem
    · exact Nat.le_refl _
    -- A longer one at the same place would begin with the symbol that was tried before it.
    · by_contra hlonger
      have hpre := List.prefix_of_prefix_length_le hfront hother (by omega)
      have hpairwise := marked_pairwise
      rw [hsplit] at hpairwise
      have hcons := (List.pairwise_append.mp hpairwise).2.1
      exact (List.pairwise_cons.mp hcons).1 other hmem hpre

theorem leading_eq_iff {cs : List Char} {op : Operator} : leading cs = op ↔ op.Longest cs := by
  constructor
  · rintro rfl
    exact longest_leading cs
  · intro h
    exact (longest_leading cs).unique h

end Operator

/-- A part spells a clause: the longest symbol at its front, blanks, and a version, which is not
empty and has no blank in it. Without a symbol, the part is the version. -/
structure Clause.SpelledBy (c : Clause) (part : List Char) : Prop where
  longest : c.operator.Longest part
  written : ∃ gap, part = c.operator.symbol.toList ++ gap ++ c.version.toList ∧
    (∀ x ∈ gap, Text.isBlank x = true) ∧ (c.operator = .bare → gap = [])
  nonempty : c.version.toList ≠ []
  unblank : Text.Unblank c.version.toList

theorem Clause.parse?_eq_some_iff_spelledBy {part : String} {c : Clause} :
    parse? part = some c ↔ c.SpelledBy (Text.trimChars part.toList) := by
  rw [parse?_eq_some_iff, Operator.leading_eq_iff]
  constructor
  · rintro ⟨hlongest, hversion, hnonempty, hunblank⟩
    refine ⟨hlongest, ?_, hnonempty, hunblank⟩
    obtain ⟨rest, hrest⟩ := hlongest.front
    rw [← hrest, ← String.length_toList, List.drop_left] at hversion
    refine ⟨rest.takeWhile Text.isBlank, ?_, fun x hx => List.mem_takeWhile_imp hx, fun hbare => ?_⟩
    · rw [← hversion, Text.trimStartChars, List.append_assoc, List.takeWhile_append_dropWhile,
        hrest]
    · have hempty : c.operator.symbol.toList = [] := by rw [hbare]; rfl
      rw [hempty, List.nil_append] at hrest
      have htrimmed := Text.trimStartChars_trimChars part.toList
      rw [← hrest, Text.trimStartChars] at htrimmed
      have hsplit := List.takeWhile_append_dropWhile (p := Text.isBlank) (l := rest)
      rw [htrimmed] at hsplit
      exact List.append_left_eq_self.mp hsplit
  · rintro ⟨hlongest, ⟨gap, hpart, hgap, -⟩, hnonempty, hunblank⟩
    refine ⟨hlongest, ?_, hnonempty, hunblank⟩
    rw [hpart, ← String.length_toList, List.append_assoc, List.drop_left, Text.trimStartChars,
      List.dropWhile_append_of_pos hgap]
    exact Text.dropWhile_isBlank_of_unblank hunblank

namespace Constraint

/-- A text, without blanks around it, constrains nothing. -/
def Unconstrained (text : String) : Prop := text = "" ∨ text = "*"

/-- The parts of a text between its commas spell clauses, each part one. -/
def SpelledBy (clauses : List Clause) (text : String) : Prop :=
  List.Forall₂ (fun part c => c.SpelledBy (Text.trimChars part.toList))
    (Text.pieces ',' text) clauses

theorem map_parse?_eq_iff {text : String} {clauses : List Clause} :
    (Text.pieces ',' text).map Clause.parse? = clauses.map some ↔ SpelledBy clauses text := by
  rw [← List.forall₂_eq_eq_eq, List.forall₂_map_left_iff, List.forall₂_map_right_iff]
  simp only [Clause.parse?_eq_some_iff_spelledBy, SpelledBy]

theorem parse?_eq_some_iff_spelledBy {raw : String} {c : Constraint} :
    parse? raw = some c ↔ c.text = raw ∧
      (Unconstrained (Text.trim raw) ∧ c.clauses = [] ∨
        ¬Unconstrained (Text.trim raw) ∧ SpelledBy c.clauses (Text.trim raw)) := by
  rw [parse?_eq_some_iff, ← map_parse?_eq_iff]
  refine and_congr_right fun _ => ?_
  by_cases hopen : Unconstrained (Text.trim raw)
  · rw [if_pos (show Text.trim raw = "" ∨ Text.trim raw = "*" from hopen)]
    simp only [hopen, not_true_eq_false, true_and, false_and, or_false]
  · rw [if_neg (show ¬(Text.trim raw = "" ∨ Text.trim raw = "*") from hopen)]
    simp only [hopen, not_false_eq_true, true_and, false_and, false_or]

/-- At least one part stands between commas, so there is at least one clause. -/
theorem SpelledBy.ne_nil {clauses : List Clause} {text : String} (h : SpelledBy clauses text) :
    clauses ≠ [] := by
  rintro rfl
  exact Text.pieces_ne_nil ',' text (List.forall₂_nil_right_iff.mp h)

/-- Reading accepts exactly the grammar. A text is read without clauses if it is blank or a lone
star, and with the clauses that its parts spell otherwise. All other texts are refused. -/
theorem parse?_accepts_grammar (raw : String) :
    (parse? raw = some ⟨raw, []⟩ ↔ Unconstrained (Text.trim raw)) ∧
    (∀ clauses, parse? raw = some ⟨raw, clauses⟩ ∧ clauses ≠ [] ↔
      ¬Unconstrained (Text.trim raw) ∧ SpelledBy clauses (Text.trim raw)) ∧
    (parse? raw = none ↔
      ¬Unconstrained (Text.trim raw) ∧ ¬∃ clauses, SpelledBy clauses (Text.trim raw)) ∧
    (∀ c, parse? raw = some c → c.text = raw ∧ ∀ clause ∈ c.clauses, clause.Readable) := by
  have hread := fun clauses => @parse?_eq_some_iff_spelledBy raw ⟨raw, clauses⟩
  refine ⟨?_, fun clauses => ?_, ?_, fun c hc => ?_⟩
  · rw [hread]
    constructor
    · rintro ⟨-, ⟨hopen, -⟩ | ⟨-, hspelled⟩⟩
      · exact hopen
      · exact absurd rfl hspelled.ne_nil
    · intro hopen
      exact ⟨rfl, Or.inl ⟨hopen, rfl⟩⟩
  · rw [hread]
    constructor
    · rintro ⟨⟨-, ⟨-, hnil⟩ | hspelled⟩, hne⟩
      · exact absurd hnil hne
      · exact hspelled
    · intro hspelled
      exact ⟨⟨rfl, Or.inr hspelled⟩, hspelled.2.ne_nil⟩
  · constructor
    · intro hnone
      have hrefused : ∀ clauses, ¬parse? raw = some ⟨raw, clauses⟩ := by simp [hnone]
      simp only [hread, not_and, not_or, true_imp_iff] at hrefused
      exact ⟨fun hopen => (hrefused []).1 hopen rfl,
        fun ⟨clauses, hspelled⟩ =>
          (hrefused clauses).2 (fun hopen => (hrefused []).1 hopen rfl) hspelled⟩
    · rintro ⟨hopen, hunspelled⟩
      rw [Option.eq_none_iff_forall_ne_some]
      intro c hc
      rcases (parse?_eq_some_iff_spelledBy.mp hc).2 with ⟨h, -⟩ | ⟨-, hspelled⟩
      · exact hopen h
      · exact hunspelled ⟨c.clauses, hspelled⟩
  · exact ⟨(parse?_eq_some_iff.mp hc).1, readable_of_parse? hc⟩

/-- A bound with blanks around it, a symbol that begins with another one, and no symbol. -/
def threeClauses : Constraint where
  text := " >= 1.0 ,~=2.3\t,4.*"
  clauses := [⟨.greaterEq, "1.0"⟩, ⟨.compatible, "2.3"⟩, ⟨.bare, "4.*"⟩]

theorem parse?_accepts_grammar_three_clauses :
    parse? threeClauses.text = some threeClauses ∧ threeClauses.clauses ≠ [] ∧
    SpelledBy threeClauses.clauses (Text.trim threeClauses.text) ∧
    ∀ clause ∈ threeClauses.clauses, clause.Readable := by
  have hparse : parse? threeClauses.text = some threeClauses := by decide
  obtain ⟨-, hspelled, -, hkept⟩ := parse?_accepts_grammar threeClauses.text
  have hne : threeClauses.clauses ≠ [] := by decide
  exact ⟨hparse, hne, ((hspelled threeClauses.clauses).mp ⟨hparse, hne⟩).2, (hkept _ hparse).2⟩

end Constraint

end EnvSpec
