import EnvSpec.Proofs.Constraint.Meaning
import EnvSpec.Proofs.Constraint.Written
import EnvSpec.Requirement.Line

/-!
# Pip lines keep the meaning

A clause is written for pip as one or two clauses in operators that pip knows. On release numbers
they admit the releases that the clause admits, and all of them are read back from the line.
-/
namespace EnvSpec

namespace Clause

/-- The lower bound and, where there is one, the upper bound of a range. -/
def rangeClauses (lower : String) (upper : Option String) : List Clause :=
  ⟨.greaterEq, lower⟩ :: (upper.map fun u => ⟨.less, u⟩).toList

/-- The clauses that stand on a pip line for one clause. -/
def forPip (c : Clause) : List Clause :=
  match c.operator with
  | .caret => rangeClauses c.version (Version.caretBound? c.version)
  | .tilde => rangeClauses c.version (Version.tildeBound? c.version)
  | .bare | .equal => [⟨.exact, c.version⟩]
  | _ => [c]

theorem range_eq_join (lower : String) (upper : Option String) :
    range lower upper = Text.join ',' ((rangeClauses lower upper).map text) := by
  cases upper with
  | none => rfl
  | some upper =>
    rw [rangeClauses, Option.map_some, Option.toList_some, List.map_cons, List.map_singleton,
      Text.join_cons_cons, Text.join_singleton, range]
    simp only [text, Operator.symbol, String.append_assoc]
    rfl

theorem pipText_eq (c : Clause) : c.pipText = Text.join ',' (c.forPip.map text) := by
  obtain ⟨op, version⟩ := c
  cases op with
  | caret | tilde => simp only [pipText, forPip, range_eq_join]
  | bare | equal | compatible | exact | notEqual | greaterEq | lessEq | greater | less =>
    simp only [forPip, List.map_cons, List.map_nil, Text.join_singleton]
    rfl

theorem forPip_ne_nil (c : Clause) : c.forPip ≠ [] := by
  obtain ⟨op, version⟩ := c
  cases op <;> exact List.cons_ne_nil _ _

/-- A text of components can be read as a version, after any operator. -/
theorem readable_text {components : List Nat} (h : components ≠ []) (op : Operator) :
    Readable ⟨op, Version.text components⟩ ∧ Unmarked ⟨op, Version.text components⟩ := by
  refine ⟨⟨?_, Version.unblank_text components, fun hc => ?_⟩, fun x hx => ?_⟩
  · exact Version.toList_text_ne_nil h
  · rcases Version.isDigit_or_dot_of_mem_text hc with hdigit | hdot
    · exact absurd hdigit (by decide)
    · exact absurd hdot (by decide)
  · rcases Version.isDigit_or_dot_of_mem_text (List.mem_of_head? hx) with hdigit | rfl
    · exact Operator.isMark_of_isDigit hdigit
    · decide

section Range
variable {lower : String} {upper : Option String} {d : Clause} {op : Operator}
  (hupper : ∀ u ∈ upper, ∃ components, components ≠ [] ∧ u = Version.text components)
  (hd : d ∈ rangeClauses lower upper)
include hupper hd

theorem readable_of_mem_rangeClauses (hr : Readable ⟨op, lower⟩) : d.Readable := by
  rcases List.mem_cons.mp hd with rfl | hd
  · exact hr.with_operator _
  · obtain ⟨u, hu, rfl⟩ := Option.map_eq_some_iff.mp (Option.mem_toList.mp hd)
    obtain ⟨components, hne, rfl⟩ := hupper u hu
    exact (readable_text hne .less).1

theorem unmarked_of_mem_rangeClauses (hm : Unmarked ⟨op, lower⟩) :
    d.Unmarked ∧ d.operator ≠ .bare := by
  rcases List.mem_cons.mp hd with rfl | hd
  · exact ⟨hm, nofun⟩
  · obtain ⟨u, hu, rfl⟩ := Option.map_eq_some_iff.mp (Option.mem_toList.mp hd)
    obtain ⟨components, hne, rfl⟩ := hupper u hu
    exact ⟨(readable_text hne .less).2, nofun⟩

end Range

/-- What stands on a pip line has a version that can be read if that of the clause can. -/
theorem readable_of_mem_forPip {c d : Clause} (hr : c.Readable) (hd : d ∈ c.forPip) :
    d.Readable := by
  obtain ⟨op, version⟩ := c
  cases op with
  | caret | tilde =>
    exact readable_of_mem_rangeClauses (fun u hu => Version.exists_text_of_bound? hu) hd hr
  | bare | equal | compatible | exact | notEqual | greaterEq | lessEq | greater | less =>
    rw [List.mem_singleton.mp hd]
    exact hr.with_operator _

/-- What stands on a pip line has an operator. -/
theorem unmarked_of_mem_forPip {c d : Clause} (hm : c.Unmarked) (hd : d ∈ c.forPip) :
    d.Unmarked ∧ d.operator ≠ .bare := by
  obtain ⟨op, version⟩ := c
  cases op with
  | caret | tilde =>
    exact unmarked_of_mem_rangeClauses (fun u hu => Version.exists_text_of_bound? hu) hd hm
  | bare | equal | compatible | exact | notEqual | greaterEq | lessEq | greater | less =>
    rw [List.mem_singleton.mp hd]
    exact ⟨hm, nofun⟩

end Clause

/-- The part after the name is made of the clauses that stand for each clause. -/
theorem Constraint.specifier_pip (c : Constraint) :
    c.specifier .pip = Text.join ',' ((c.clauses.flatMap Clause.forPip).map Clause.text) := by
  have hgroups : c.clauses.map (Clause.textFor .pip) =
      (c.clauses.map fun clause => clause.forPip.map Clause.text).map (Text.join ',') := by
    rw [List.map_map]
    exact List.map_congr_left fun clause _ => clause.pipText_eq
  have hne : ∀ g ∈ c.clauses.map fun clause => clause.forPip.map Clause.text, g ≠ [] := by
    rw [List.forall_mem_map]
    intro clause _
    simpa using clause.forPip_ne_nil
  rw [specifier, hgroups, Text.join_map_join ',' hne, List.map_flatMap, List.flatMap]

theorem Constraint.readable_of_mem_forPip {c : Constraint}
    (hr : ∀ clause ∈ c.clauses, clause.Readable) :
    ∀ d ∈ c.clauses.flatMap Clause.forPip, d.Readable := by
  intro d hd
  obtain ⟨clause, hclause, hd⟩ := List.mem_flatMap.mp hd
  exact Clause.readable_of_mem_forPip (hr clause hclause) hd

theorem Constraint.unblank_specifier_pip {c : Constraint}
    (hr : ∀ clause ∈ c.clauses, clause.Readable) : Text.Unblank (c.specifier .pip).toList := by
  rw [specifier_pip]
  exact unblank_join_text (readable_of_mem_forPip hr)

/-- The clauses of a pip line are read back from it. -/
theorem Constraint.parse?_specifier_pip {c : Constraint}
    (hr : ∀ clause ∈ c.clauses, clause.Readable) (hm : ∀ clause ∈ c.clauses, clause.Unmarked) :
    parse? (c.specifier .pip) = some ⟨c.specifier .pip, c.clauses.flatMap Clause.forPip⟩ := by
  have hunmarked : ∀ d ∈ c.clauses.flatMap Clause.forPip, d.Unmarked ∧ d.operator ≠ .bare := by
    intro d hd
    obtain ⟨clause, hclause, hd⟩ := List.mem_flatMap.mp hd
    exact Clause.unmarked_of_mem_forPip (hm clause hclause) hd
  rw [specifier_pip]
  refine parse?_join_text (readable_of_mem_forPip hr) (fun d hd => (hunmarked d hd).1) ?_
  intro hstar
  exact (hunmarked ⟨.bare, "*"⟩ (by rw [hstar]; exact List.mem_singleton_self _)).2 rfl

namespace Clause

theorem admits_iff {version : String} {written : List Nat} (h : Version.Writes version written)
    (op : Operator) (w : Release) : Admits ⟨op, version⟩ w ↔ op.Admits written w := by
  constructor
  · rintro ⟨written', h', hadmits⟩
    rw [h.unique h']
    exact hadmits
  · intro hadmits
    exact ⟨written, h, hadmits⟩

/-- The version is a release number, and so is the one with the kept component raised. -/
def OnRelease (c : Clause) : Prop :=
  ∃ written, Version.Writes c.version written ∧
    ∀ k, c.operator.Keeps written k → written.getD k 0 + 1 < Version.componentLimit

/-- A range admits what is not below its version and agrees with it up to the raised place. -/
theorem forall_rangeClauses_admits_iff {version : String} {written : List Nat}
    (h : Version.Writes version written) {index : List Nat → Nat}
    (hk : index written < written.length)
    (hlt : written.getD (index written) 0 + 1 < Version.componentLimit) (w : Release) :
    (∀ d ∈ rangeClauses version (Version.bound? index version), d.Admits w) ↔
      Release.ofComponents written ≤ w ∧
        Release.AgreeUpTo (index written) (Release.ofComponents written) w := by
  have hraised := h.raised hk hlt
  rw [h.bound?_eq hk hlt, rangeClauses, Option.map_some, Option.toList_some,
    List.forall_mem_cons, List.forall_mem_singleton, admits_iff h, admits_iff hraised]
  exact and_congr_right fun hle => Release.lt_raised_iff h.length_le hk hle

/-- The clauses that stand for a clause admit what it admits. -/
theorem forall_forPip_admits_iff {c : Clause} (h : c.OnRelease) (w : Release) :
    (∀ d ∈ c.forPip, d.Admits w) ↔ c.Admits w := by
  obtain ⟨op, version⟩ := c
  obtain ⟨written, hwrites, hlt⟩ := h
  rw [admits_iff hwrites]
  cases op with
  | caret =>
    have hkeeps (k : Nat) : Operator.caret.Keeps written k ↔ k = Version.caretIndex written :=
      Version.isPivot_iff hwrites.nonempty
    have hk := Version.caretIndex_lt_length hwrites.nonempty
    simp only [Operator.Admits, hkeeps, exists_eq_left]
    exact forall_rangeClauses_admits_iff hwrites hk (hlt _ ((hkeeps _).mpr rfl)) w
  | tilde =>
    have hkeeps (k : Nat) : Operator.tilde.Keeps written k ↔ k = Version.tildeIndex written :=
      Iff.rfl
    have hk := Version.tildeIndex_lt_length hwrites.nonempty
    simp only [Operator.Admits, hkeeps, exists_eq_left]
    exact forall_rangeClauses_admits_iff hwrites hk (hlt _ ((hkeeps _).mpr rfl)) w
  | bare | equal =>
    rw [forPip, List.forall_mem_singleton, admits_iff hwrites]
    rfl
  | compatible | exact | notEqual | greaterEq | lessEq | greater | less =>
    rw [forPip, List.forall_mem_singleton, admits_iff hwrites]

end Clause

/-- The pip line of a record is its name and a text from which a constraint is read that admits the
releases that the record's constraint admits. -/
theorem Record.line_pip_keeps_meaning {r : Record} (h : ∀ c ∈ r.constraint.clauses, c.OnRelease) :
    ∃ specifier reread, r.line .pip = r.name ++ specifier ∧
      Constraint.parse? specifier = some reread ∧
        ∀ w, reread.Admits w ↔ r.constraint.Admits w := by
  have hread : ∀ c ∈ r.constraint.clauses, c.Readable ∧ c.Unmarked := by
    rintro ⟨op, version⟩ hc
    obtain ⟨written, hwrites, -⟩ := h _ hc
    obtain rfl : version = Version.text written := hwrites.written
    exact Clause.readable_text hwrites.nonempty op
  refine ⟨_, _, rfl, Constraint.parse?_specifier_pip (fun c hc => (hread c hc).1)
    (fun c hc => (hread c hc).2), fun w => ?_⟩
  rw [Constraint.Admits, Constraint.Admits, List.forall_mem_flatMap]
  exact forall₂_congr fun c hc => Clause.forall_forPip_admits_iff (h c hc) w

/-- Early releases of a library without one that is broken. -/
def earlyRecord : Record :=
  ⟨"myia", ⟨"^0.0, != 0.0.5", [⟨.caret, "0.0"⟩, ⟨.notEqual, "0.0.5"⟩]⟩, .standard⟩

theorem Record.line_pip_keeps_meaning_early :
    ∃ specifier reread, earlyRecord.line .pip = "myia" ++ specifier ∧
      Constraint.parse? specifier = some reread ∧
        ∀ w, reread.Admits w ↔ earlyRecord.constraint.Admits w := by
  refine Record.line_pip_keeps_meaning fun c hc => ?_
  rcases List.mem_cons.mp hc with rfl | hc
  · refine ⟨[0, 0], ⟨by decide, by decide, by decide, by decide⟩, fun k hk => ?_⟩
    obtain rfl := (Version.isPivot_iff (by decide)).mp hk
    decide
  · obtain rfl := List.mem_singleton.mp hc
    exact ⟨[0, 0, 5], ⟨by decide, by decide, by decide, by decide⟩, nofun⟩

example : earlyRecord.line .pip = "myia>=0.0,<0.1,!=0.0.5" := by decide

end EnvSpec
