import EnvSpec.Proofs.Constraint.Grammar

/-!
# Printed clauses and merging symbols

A clause is printed as its symbol and its version. Blanks that stood between the two are not
printed, and with them the end of the symbol can be lost: an equals sign at the front of the version
then completes a longer symbol. Such a clause merges, and it is the only kind of clause that is read
from a text and not read again from what is printed of it.
-/
namespace EnvSpec

/-- The symbol is part of a longer one, which the version's first character completes. -/
def Clause.Merges (c : Clause) : Prop :=
  (∃ longer ∈ Operator.marked, longer.symbol.toList = c.operator.symbol.toList ++ ['=']) ∧
    c.version.toList.head? = some '='

instance (c : Clause) : Decidable c.Merges := inferInstanceAs (Decidable (_ ∧ _))

/-- A symbol at the front of another one is followed there by an equals sign alone. -/
theorem Operator.symbol_of_prefix {a b : Operator} (ha : a ≠ bare)
    (h : a.symbol.toList <+: b.symbol.toList) :
    b.symbol.toList = a.symbol.toList ∨ b.symbol.toList = a.symbol.toList ++ ['='] := by
  revert ha h
  cases a <;> cases b <;> decide

namespace Clause

theorem Readable.trimChars_text {c : Clause} (h : c.Readable) :
    Text.trimChars c.text.toList = c.operator.symbol.toList ++ c.version.toList := by
  rw [Text.trimChars_of_unblank h.unblank_text, text, String.toList_append]

section Spelled
variable {c : Clause} {part : List Char} (h : c.SpelledBy part)
include h

/-- Without its blanks a part still begins with the symbol, which is still the longest one there if
the clause does not merge. -/
theorem SpelledBy.longest_printed_iff :
    c.operator.Longest (c.operator.symbol.toList ++ c.version.toList) ↔ ¬c.Merges := by
  constructor
  · rintro hlongest ⟨⟨longer, -, hsymbol⟩, hhead⟩
    obtain ⟨rest, hrest⟩ := List.head?_eq_some_iff.mp hhead
    have hfront : longer.symbol.toList <+: c.operator.symbol.toList ++ c.version.toList := by
      rw [hsymbol, hrest]
      exact (List.prefix_append_right_inj _).mpr (List.prefix_append ['='] rest)
    have hlen := hlongest.longest longer hfront
    rw [hsymbol, List.length_append, List.length_singleton] at hlen
    omega
  · intro hmerges
    by_cases hbare : c.operator = .bare
    · -- A part without a symbol has no gap either, so it is printed as it was.
      obtain ⟨gap, hpart, -, hgap⟩ := h.written
      rw [hgap hbare, List.append_nil] at hpart
      exact hpart ▸ h.longest
    refine ⟨List.prefix_append _ _, fun other hother => ?_⟩
    by_contra hlonger
    have hpre := List.prefix_of_prefix_length_le (List.prefix_append _ _) hother (by omega)
    rcases Operator.symbol_of_prefix hbare hpre with hsame | hlong
    · rw [hsame] at hlonger
      exact hlonger (Nat.le_refl _)
    · rw [hlong] at hother
      obtain ⟨rest, hrest⟩ := (List.prefix_append_right_inj _).mp hother
      have hmarked : other ∈ Operator.marked := by
        refine Operator.mem_marked fun hother => ?_
        rw [hother] at hlong
        exact absurd (congrArg List.length hlong) (by simp [Operator.symbol])
      exact hmerges ⟨⟨other, hmarked, hlong⟩, by rw [← hrest]; rfl⟩

/-- Without blanks in it, a part is printed as it was. -/
theorem SpelledBy.not_merges_of_unblank (hpart : Text.Unblank part) : ¬c.Merges := by
  obtain ⟨gap, hwritten, hblank, -⟩ := h.written
  have hgap : gap = [] := by
    refine List.eq_nil_iff_forall_not_mem.mpr fun x hx => ?_
    have hmem : x ∈ part := by simp [hwritten, hx]
    exact Bool.false_ne_true ((hpart x hmem).symm.trans (hblank x hx))
  rw [hgap, List.append_nil] at hwritten
  exact h.longest_printed_iff.mp (hwritten ▸ h.longest)

end Spelled

theorem parse?_text_iff {part : String} {c : Clause} (h : parse? part = some c)
    (hr : c.Readable) : parse? c.text = some c ↔ ¬c.Merges := by
  have hspelled := parse?_eq_some_iff_spelledBy.mp h
  rw [parse?_eq_some_iff_spelledBy, hr.trimChars_text, ← hspelled.longest_printed_iff]
  constructor
  · intro hprinted
    exact hprinted.longest
  · intro hlongest
    exact ⟨hlongest, ⟨[], by simp⟩, hr.nonempty, hr.unblank⟩

end Clause

namespace Constraint

/-- The clauses that were read from a text are read again from their printed texts exactly if none
of them merges, and none merges if no blank stands inside the text. -/
theorem printed_reread_iff {raw : String} {c : Constraint} (h : parse? raw = some c) :
    (parse? (Text.join ',' (c.clauses.map Clause.text)) =
        some ⟨Text.join ',' (c.clauses.map Clause.text), c.clauses⟩ ↔
      ∀ clause ∈ c.clauses, ¬clause.Merges) ∧
    (Text.Unblank (Text.trim raw).toList → ∀ clause ∈ c.clauses, ¬clause.Merges) := by
  have hreadable := readable_of_parse? h
  constructor
  · rw [parse?_join_text_iff hreadable (clauses_ne_star h)]
    refine forall₂_congr fun clause hclause => ?_
    obtain ⟨part, -, hpart⟩ := exists_part_of_mem h hclause
    exact Clause.parse?_text_iff hpart (hreadable clause hclause)
  · intro hunblank clause hclause
    obtain ⟨part, hpiece, hpart⟩ := exists_part_of_mem h hclause
    have hspelled := Clause.parse?_eq_some_iff_spelledBy.mp hpart
    refine hspelled.not_merges_of_unblank fun x hx => hunblank x ?_
    exact Text.mem_of_mem_pieces hpiece (Text.mem_of_mem_trimChars hx)

/-- Blanks behind symbols, and an equals sign behind one that no longer symbol begins with. -/
def keptApart : Constraint where
  text := "> 1.0, != =2, ~ *"
  clauses := [⟨.greater, "1.0"⟩, ⟨.notEqual, "=2"⟩, ⟨.tilde, "*"⟩]

theorem printed_reread_iff_kept_apart :
    parse? keptApart.text = some keptApart ∧ (∀ clause ∈ keptApart.clauses, ¬clause.Merges) ∧
    parse? ">1.0,!==2,~*" = some ⟨">1.0,!==2,~*", keptApart.clauses⟩ ∧
    Text.Unblank (Text.trim " !==2 ").toList ∧
    ¬(⟨.notEqual, "=2"⟩ : Clause).Merges := by
  have hapart : parse? keptApart.text = some keptApart := by decide
  have hmerges : ∀ clause ∈ keptApart.clauses, ¬clause.Merges := by decide
  have hjoin : Text.join ',' (keptApart.clauses.map Clause.text) = ">1.0,!==2,~*" := by decide
  have hreread := (printed_reread_iff hapart).1.mpr hmerges
  rw [hjoin] at hreread
  have htight : parse? " !==2 " = some ⟨" !==2 ", [⟨.notEqual, "=2"⟩]⟩ := by decide
  have hunblank : Text.Unblank (Text.trim " !==2 ").toList := by decide
  have hkept := (printed_reread_iff htight).2 hunblank
  exact ⟨hapart, hmerges, hreread, hunblank, hkept _ (List.mem_singleton_self _)⟩

/-- An equals sign apart from the operator is taken for its version, although there is no version in
the text, and what is printed of the clause is refused. -/
theorem equals_apart_not_reread :
    parse? "> =" = some ⟨"> =", [⟨.greater, "="⟩]⟩ ∧
    parse? (Text.join ',' ([(⟨.greater, "="⟩ : Clause)].map Clause.text)) = none := by
  decide

/-- Where a version follows, the comparison becomes another one. -/
example : parse? "> =1" = some ⟨"> =1", [⟨.greater, "=1"⟩]⟩ ∧
    (⟨.greater, "=1"⟩ : Clause).text = ">=1" ∧
    parse? ">=1" = some ⟨">=1", [⟨.greaterEq, "1"⟩]⟩ := by
  decide

end Constraint

end EnvSpec
