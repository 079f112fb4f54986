import EnvSpec.Constraint.Basic
import EnvSpec.Proofs.Text.Cutting

/-!
# Written clauses are read back

A clause is written as the symbol of its operator and its version, with nothing between. The
boundary is found again if the version does not itself begin with a character of a symbol, and then
any list of such clauses is read back from its texts between commas. The one exception is the lone
bare star, which is no clause when it is read.
-/
namespace EnvSpec

/-- A character that operator symbols are made of. -/
def Operator.isMark (c : Char) : Bool := ['=', '<', '>', '!', '~', '^'].contains c

theorem Operator.isMark_of_isDigit {c : Char} (h : c.isDigit = true) : isMark c = false := by
  simp only [isMark, List.contains_eq_mem, List.mem_cons, List.not_mem_nil, or_false,
    decide_eq_false_iff_not, not_or]
  refine ⟨?_, ?_, ?_, ?_, ?_, ?_⟩ <;> rintro rfl <;> exact absurd h (by decide)

namespace Clause

/-- A version as it can be read: not empty, and without blanks and commas. -/
structure Readable (c : Clause) : Prop where
  nonempty : c.version.toList ≠ []
  unblank : Text.Unblank c.version.toList
  no_comma : ',' ∉ c.version.toList

/-- The version does not begin with a character of an operator symbol. -/
def Unmarked (c : Clause) : Prop := ∀ x ∈ c.version.toList.head?, Operator.isMark x = false

instance (c : Clause) : Decidable c.Unmarked :=
  Option.decidableForallMem (p := fun x => Operator.isMark x = false) c.version.toList.head?

theorem Readable.with_operator {c : Clause} (h : c.Readable) (op : Operator) :
    Readable ⟨op, c.version⟩ :=
  ⟨h.nonempty, h.unblank, h.no_comma⟩

end Clause

theorem Operator.unblank_symbol (op : Operator) : Text.Unblank op.symbol.toList := by
  cases op <;> decide

theorem Operator.no_comma_symbol (op : Operator) : ',' ∉ op.symbol.toList := by
  cases op <;> decide

/-- The longest symbol at the front is the one that was written. -/
theorem Operator.leading_symbol_append (op : Operator) {c : Char} (h : isMark c = false)
    (cs : List Char) : leading (op.symbol.toList ++ c :: cs) = op := by
  simp only [isMark, List.contains_eq_mem, List.mem_cons, List.not_mem_nil, or_false,
    decide_eq_false_iff_not, not_or] at h
  obtain ⟨h1, h2, h3, h4, h5, h6⟩ := h
  cases op <;>
    simp [leading, marked, symbol, List.isPrefixOf, Ne.symm h1, Ne.symm h2, Ne.symm h3,
      Ne.symm h4, Ne.symm h5, Ne.symm h6]

namespace Clause

theorem Readable.unblank_text {c : Clause} (h : c.Readable) : Text.Unblank c.text.toList := by
  rw [text, String.toList_append]
  exact Text.unblank_append.mpr ⟨c.operator.unblank_symbol, h.unblank⟩

theorem Readable.no_comma_text {c : Clause} (h : c.Readable) : ',' ∉ c.text.toList := by
  rw [text, String.toList_append, List.mem_append, not_or]
  exact ⟨c.operator.no_comma_symbol, h.no_comma⟩

theorem parse?_empty : parse? "" = none := by decide

theorem parse?_star : parse? "*" = some ⟨.bare, "*"⟩ := by decide

/-- What is read from a part: the longest symbol at its front and the text after that. -/
theorem parse?_eq_some_iff {part : String} {c : Clause} :
    parse? part = some c ↔
      Operator.leading (Text.trimChars part.toList) = c.operator ∧
        Text.trimStartChars ((Text.trimChars part.toList).drop c.operator.symbol.length) =
          c.version.toList ∧
        c.version.toList ≠ [] ∧ Text.Unblank c.version.toList := by
  obtain ⟨op, version⟩ := c
  simp only [parse?]
  constructor
  · intro h
    split at h
    · cases h
    · next hversion =>
      obtain ⟨hop, hofList⟩ := Clause.mk.inj (Option.some.inj h)
      simp only [Bool.or_eq_true, not_or, Bool.not_eq_true] at hversion
      subst hop hofList
      rw [String.toList_ofList]
      exact ⟨rfl, rfl, by simpa using hversion.1, by simpa [Text.Unblank] using hversion.2⟩
  · rintro ⟨hop, hversion, hnonempty, hunblank⟩
    have hblank : version.toList.any Text.isBlank = false := by
      simpa [Text.Unblank] using hunblank
    have hempty : version.toList.isEmpty = false := List.isEmpty_eq_false_iff.mpr hnonempty
    rw [hop, hversion, hblank, hempty, Bool.or_false, if_neg Bool.false_ne_true,
      String.ofList_toList]

theorem parse?_text {c : Clause} (h : c.Readable) (hm : c.Unmarked) : parse? c.text = some c := by
  obtain ⟨x, xs, hx⟩ := List.exists_cons_of_ne_nil h.nonempty
  have hcs : Text.trimChars c.text.toList = c.operator.symbol.toList ++ c.version.toList := by
    rw [Text.trimChars_of_unblank h.unblank_text, text, String.toList_append]
  rw [parse?_eq_some_iff, hcs]
  refine ⟨?_, ?_, h.nonempty, h.unblank⟩
  · rw [hx]
    exact Operator.leading_symbol_append _ (hm x (by rw [hx]; rfl)) xs
  · rw [← String.length_toList, List.drop_left, Text.trimStartChars_of_unblank h.unblank]

/-- Whatever is read as a clause has a version that can be read. -/
theorem readable_of_parse? {part : String} {c : Clause} (hpart : ',' ∉ part.toList)
    (h : parse? part = some c) : c.Readable := by
  obtain ⟨-, hversion, hnonempty, hunblank⟩ := parse?_eq_some_iff.mp h
  refine ⟨hnonempty, hunblank, fun hc => ?_⟩
  rw [← hversion] at hc
  have hdrop := List.mem_of_mem_drop (Text.mem_of_mem_trimStartChars hc)
  exact hpart (Text.mem_of_mem_trimChars hdrop)

end Clause

namespace Constraint

/-- What is read from a text: no clauses, or one from each piece between commas. -/
theorem parse?_eq_some_iff {raw : String} {c : Constraint} :
    parse? raw = some c ↔ c.text = raw ∧
      if Text.trim raw = "" ∨ Text.trim raw = "*" then c.clauses = []
      else (Text.pieces ',' (Text.trim raw)).map Clause.parse? = c.clauses.map some := by
  obtain ⟨text, clauses⟩ := c
  simp only [parse?]
  split
  · rw [Option.some.injEq, Constraint.mk.injEq, eq_comm, @eq_comm _ [] clauses]
  · rw [← Text.mapM_eq_some_iff, Option.map_eq_some_iff]
    constructor
    · rintro ⟨read, hread, h⟩
      obtain ⟨rfl, rfl⟩ := Constraint.mk.inj h
      exact ⟨rfl, hread⟩
    · rintro ⟨rfl, hread⟩
      exact ⟨clauses, hread, rfl⟩

theorem unblank_join_text {clauses : List Clause} (h : ∀ c ∈ clauses, c.Readable) :
    Text.Unblank (Text.join ',' (clauses.map Clause.text)).toList := by
  refine Text.unblank_join (by decide) fun p hp => ?_
  obtain ⟨c, hc, rfl⟩ := List.mem_map.mp hp
  exact (h c hc).unblank_text

theorem pieces_join_text {clauses : List Clause} (hne : clauses ≠ [])
    (h : ∀ c ∈ clauses, c.Readable) :
    Text.pieces ',' (Text.join ',' (clauses.map Clause.text)) = clauses.map Clause.text := by
  refine Text.pieces_join ',' _ (by simpa using hne) fun p hp => ?_
  obtain ⟨c, hc, rfl⟩ := List.mem_map.mp hp
  exact (h c hc).no_comma_text

/-- Clauses are read back from their texts between commas exactly if each is read back from its own,
none of them included. -/
theorem parse?_join_text_iff {clauses : List Clause} (h : ∀ c ∈ clauses, c.Readable)
    (hstar : clauses ≠ [⟨.bare, "*"⟩]) :
    parse? (Text.join ',' (clauses.map Clause.text)) =
        some ⟨Text.join ',' (clauses.map Clause.text), clauses⟩ ↔
      ∀ c ∈ clauses, Clause.parse? c.text = some c := by
  by_cases hne : clauses = []
  · subst hne
    exact iff_of_true (by decide) (List.forall_mem_nil _)
  have htrim := Text.trim_of_unblank (unblank_join_text h)
  have hpieces := pieces_join_text hne h
  rw [parse?_eq_some_iff, htrim]
  constructor
  · rintro ⟨-, hread⟩
    split at hread
    · exact absurd hread hne
    · rw [hpieces, List.map_map] at hread
      intro c hc
      have hclause := List.map_inj_left.mp hread c hc
      rwa [Function.comp_apply] at hclause
  · intro hclause
    have hread : (clauses.map Clause.text).map Clause.parse? = clauses.map some := by
      rw [List.map_map]
      refine List.map_congr_left fun c hc => ?_
      rw [Function.comp_apply, hclause c hc]
    -- A join without a comma is the text of a single clause, and that clause is read from it.
    have hsingle {s : String} (hs : ',' ∉ s.toList)
        (hjoin : Text.join ',' (clauses.map Clause.text) = s) :
        ∃ c, clauses = [c] ∧ Clause.parse? s = some c := by
      rw [hjoin, Text.pieces_of_not_mem hs] at hpieces
      obtain ⟨c, rfl, htext⟩ := List.map_eq_singleton_iff.mp hpieces.symm
      exact ⟨c, rfl, htext ▸ hclause c (List.mem_singleton_self c)⟩
    have hany : ¬(Text.join ',' (clauses.map Clause.text) = "" ∨
        Text.join ',' (clauses.map Clause.text) = "*") := by
      rintro (hjoin | hjoin)
      · obtain ⟨c, -, hc⟩ := hsingle (by decide) hjoin
        rw [Clause.parse?_empty] at hc
        cases hc
      · obtain ⟨c, hclauses, hc⟩ := hsingle (by decide) hjoin
        rw [Clause.parse?_star] at hc
        rw [← Option.some.inj hc] at hclauses
        exact hstar hclauses
    rw [if_neg hany, hpieces]
    exact ⟨rfl, hread⟩

theorem parse?_join_text {clauses : List Clause} (h : ∀ c ∈ clauses, c.Readable)
    (hm : ∀ c ∈ clauses, c.Unmarked) (hstar : clauses ≠ [⟨.bare, "*"⟩]) :
    parse? (Text.join ',' (clauses.map Clause.text)) =
      some ⟨Text.join ',' (clauses.map Clause.text), clauses⟩ :=
  (parse?_join_text_iff h hstar).mpr fun c hc => Clause.parse?_text (h c hc) (hm c hc)

/-- Each clause was read from a part of the text. -/
theorem exists_part_of_mem {raw : String} {c : Constraint} (h : parse? raw = some c)
    {clause : Clause} (hclause : clause ∈ c.clauses) :
    ∃ part ∈ Text.pieces ',' (Text.trim raw), Clause.parse? part = some clause := by
  have hclauses := (parse?_eq_some_iff.mp h).2
  split at hclauses
  · rw [hclauses] at hclause
    exact absurd hclause List.not_mem_nil
  · have hmem : some clause ∈ c.clauses.map some := List.mem_map_of_mem hclause
    rw [← hclauses] at hmem
    exact List.mem_map.mp hmem

/-- Every clause of a constraint that was read has a version that can be read. -/
theorem readable_of_parse? {raw : String} {c : Constraint} (h : parse? raw = some c) :
    ∀ clause ∈ c.clauses, clause.Readable := by
  intro clause hclause
  obtain ⟨part, hpart, hread⟩ := exists_part_of_mem h hclause
  exact Clause.readable_of_parse? (Text.not_mem_of_mem_pieces hpart) hread

/-- What is read as one version without an operator is that version, with blanks around it. -/
theorem trim_eq_version_of_bare {raw version : String} {c : Constraint} (h : parse? raw = some c)
    (hbare : c.clauses = [⟨.bare, version⟩]) : Text.trim raw = version := by
  have hclauses := (parse?_eq_some_iff.mp h).2
  rw [hbare] at hclauses
  split at hclauses
  · cases hclauses
  · obtain ⟨part, hpieces, hpart⟩ := List.map_eq_singleton_iff.mp hclauses
    have hraw : Text.trim raw = part := by
      rw [← Text.join_pieces ',' (Text.trim raw), hpieces, Text.join_singleton]
    have hcs : Text.trimChars part.toList = part.toList := by
      rw [← hraw, Text.toList_trim, Text.trimChars_trimChars]
    obtain ⟨-, hversion, -, -⟩ := Clause.parse?_eq_some_iff.mp hpart
    rw [hcs, Operator.symbol, String.length_empty, List.drop_zero,
      Text.trimStartChars_of_trimmed hcs] at hversion
    rw [hraw, ← String.toList_inj, hversion]

/-- A lone star is no clause. -/
theorem clauses_ne_star {raw : String} {c : Constraint} (h : parse? raw = some c) :
    c.clauses ≠ [⟨.bare, "*"⟩] := by
  intro hstar
  have hclauses := (parse?_eq_some_iff.mp h).2
  rw [if_pos (Or.inr (trim_eq_version_of_bare h hstar)), hstar] at hclauses
  cases hclauses

end Constraint

end EnvSpec
