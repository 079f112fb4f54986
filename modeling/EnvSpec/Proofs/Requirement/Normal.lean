import EnvSpec.Proofs.Requirement.Pip

/-!
# Pip lines are in normal form

The operators without a counterpart are gone from a pip line: what is read from it has only clauses
that are written there as they are. So writing what was read gives the same line.
-/
namespace EnvSpec

/-- An operator that stands on pip lines as it is. -/
structure Operator.IsNormal (op : Operator) : Prop where
  ne_caret : op ≠ .caret
  ne_tilde : op ≠ .tilde
  ne_equal : op ≠ .equal
  ne_bare : op ≠ .bare

namespace Clause

theorem forPip_of_isNormal {c : Clause} (h : c.operator.IsNormal) : c.forPip = [c] := by
  obtain ⟨op, version⟩ := c
  cases op with
  | caret => exact absurd rfl h.ne_caret
  | tilde => exact absurd rfl h.ne_tilde
  | equal => exact absurd rfl h.ne_equal
  | bare => exact absurd rfl h.ne_bare
  | compatible | exact | notEqual | greaterEq | lessEq | greater | less => rfl

/-- A range has a lower bound and perhaps an upper one. -/
theorem isNormal_of_mem_rangeClauses {lower : String} {upper : Option String} {d : Clause}
    (hd : d ∈ rangeClauses lower upper) : d.operator.IsNormal := by
  rcases List.mem_cons.mp hd with rfl | hd
  · exact ⟨nofun, nofun, nofun, nofun⟩
  · obtain ⟨u, -, rfl⟩ := Option.map_eq_some_iff.mp (Option.mem_toList.mp hd)
    exact ⟨nofun, nofun, nofun, nofun⟩

theorem isNormal_of_mem_forPip {c d : Clause} (hd : d ∈ c.forPip) : d.operator.IsNormal := by
  obtain ⟨op, version⟩ := c
  cases op with
  | caret | tilde => exact isNormal_of_mem_rangeClauses hd
  | bare | equal | compatible | exact | notEqual | greaterEq | lessEq | greater | less =>
    rw [List.mem_singleton.mp hd]
    exact ⟨nofun, nofun, nofun, nofun⟩

end Clause

namespace Constraint

theorem isNormal_of_mem_flatMap_forPip {clauses : List Clause} {d : Clause}
    (hd : d ∈ clauses.flatMap Clause.forPip) : d.operator.IsNormal := by
  obtain ⟨c, -, hd⟩ := List.mem_flatMap.mp hd
  exact Clause.isNormal_of_mem_forPip hd

theorem flatMap_forPip_of_isNormal {clauses : List Clause}
    (h : ∀ c ∈ clauses, c.operator.IsNormal) : clauses.flatMap Clause.forPip = clauses := by
  have hsingle : clauses.flatMap Clause.forPip = clauses.flatMap fun c => [c] :=
    List.flatMap_congr fun c hc => Clause.forPip_of_isNormal (h c hc)
  rw [hsingle, List.flatMap_singleton']

theorem flatMap_forPip_eq_nil_iff {clauses : List Clause} :
    clauses.flatMap Clause.forPip = [] ↔ clauses = [] := by
  rw [List.flatMap_eq_nil_iff]
  constructor
  · intro h
    exact List.eq_nil_iff_forall_not_mem.mpr fun c hc => c.forPip_ne_nil (h c hc)
  · rintro rfl
    exact List.forall_mem_nil _

/-- Writing what was read from a pip line gives what was read. -/
theorem specifier_pip_reread (c : Constraint) (text : String) :
    specifier .pip ⟨text, c.clauses.flatMap Clause.forPip⟩ = c.specifier .pip := by
  have hnormal : ∀ d ∈ c.clauses.flatMap Clause.forPip, d.operator.IsNormal :=
    fun d hd => isNormal_of_mem_flatMap_forPip hd
  rw [specifier_pip, specifier_pip, flatMap_forPip_of_isNormal hnormal]

/-- A constraint that was read is written for pip in a normal form, which is read as clauses that
are written in the same way again. It is empty for a constraint without clauses only. -/
theorem line_pip_normal {raw : String} {c : Constraint} (h : parse? raw = some c)
    (hm : ∀ clause ∈ c.clauses, clause.Unmarked) (name : String) (channel : Channel) :
    ∃ specifier reread, Record.line .pip ⟨name, c, channel⟩ = name ++ specifier ∧
      parse? specifier = some reread ∧
      (∀ d ∈ reread.clauses, d.operator.IsNormal) ∧
      Record.line .pip ⟨name, reread, channel⟩ = Record.line .pip ⟨name, c, channel⟩ ∧
      (specifier = "" ↔ c.clauses = []) ∧ (reread.clauses = [] ↔ c.clauses = []) := by
  have hread := parse?_specifier_pip (readable_of_parse? h) hm
  refine ⟨c.specifier .pip, _, rfl, hread, fun d hd => isNormal_of_mem_flatMap_forPip hd, ?_, ?_,
    flatMap_forPip_eq_nil_iff⟩
  · rw [Record.line, specifier_pip_reread, Record.line]
  · constructor
    · intro hempty
      have hany : parse? "" = some ⟨"", []⟩ := by decide
      rw [hempty, hany] at hread
      exact flatMap_forPip_eq_nil_iff.mp (Constraint.mk.inj (Option.some.inj hread)).2.symm
    · intro hnil
      rw [specifier, hnil]
      rfl

/-- A wildcard, a caret on a pre-release, a tilde on a release number and one equals sign. -/
def fourClauses : Constraint where
  text := "^1.0rc1, ~ 1.2, =3.*, 4.*"
  clauses := [⟨.caret, "1.0rc1"⟩, ⟨.tilde, "1.2"⟩, ⟨.equal, "3.*"⟩, ⟨.bare, "4.*"⟩]

theorem line_pip_normal_four_clauses :
    parse? fourClauses.text = some fourClauses ∧ (∀ clause ∈ fourClauses.clauses, clause.Unmarked) ∧
    ∃ specifier reread, Record.line .pip ⟨"torch", fourClauses, .pip⟩ = "torch" ++ specifier ∧
      parse? specifier = some reread ∧
      (∀ d ∈ reread.clauses, d.operator.IsNormal) ∧
      Record.line .pip ⟨"torch", reread, .pip⟩ = Record.line .pip ⟨"torch", fourClauses, .pip⟩ := by
  have hread : parse? fourClauses.text = some fourClauses := by decide
  have hunmarked : ∀ clause ∈ fourClauses.clauses, clause.Unmarked := by decide
  obtain ⟨specifier, reread, hline, hspecifier, hnormal, hsame, -⟩ :=
    line_pip_normal hread hunmarked "torch" .pip
  exact ⟨hread, hunmarked, specifier, reread, hline, hspecifier, hnormal, hsame⟩

example : fourClauses.specifier .pip = ">=1.0rc1,>=1.2,<1.3,==3.*,==4.*" := by decide

end Constraint

end EnvSpec
