import Mathlib.Data.List.Forall2
import EnvSpec.Proofs.Constraint.Written
import EnvSpec.Requirement.Line

/-!
# Conda lines are read back

A conda line has one spelling for four operators, and reading it drops the equals sign that the
spelling put in front. What is read is therefore not the constraint that was written, but one that
is written in the same way.
-/
namespace EnvSpec

/-- Operators without a counterpart are written as the fuzzy match. -/
def Operator.forConda : Operator → Operator
  | caret | tilde | bare => equal
  | op => op

/-- No clause is written without an operator. -/
theorem Operator.symbol_forConda_ne_nil (op : Operator) : op.forConda.symbol.toList ≠ [] := by
  cases op <;> decide

namespace Clause

def forConda (c : Clause) : Clause := ⟨c.operator.forConda, c.version⟩

theorem condaText_eq (c : Clause) : c.condaText = c.forConda.text := by
  obtain ⟨op, version⟩ := c
  cases op <;> rfl

theorem forConda_forConda (c : Clause) : c.forConda.forConda = c.forConda := by
  obtain ⟨op, version⟩ := c
  cases op <;> rfl

/-- The clauses after the equals sign of the first one was dropped. -/
def openFirst : List Clause → List Clause
  | [] => []
  | c :: rest => ⟨if c.operator = .equal then .bare else c.operator, c.version⟩ :: rest

theorem map_forConda_openFirst (clauses : List Clause) :
    (openFirst clauses).map forConda = clauses.map forConda := by
  cases clauses with
  | nil => rfl
  | cons c rest =>
    obtain ⟨op, version⟩ := c
    cases op <;> rfl

theorem forall_mem_openFirst {P : Clause → Prop} (hP : ∀ c op, P c → P ⟨op, c.version⟩)
    {clauses : List Clause} (h : ∀ c ∈ clauses, P c) : ∀ c ∈ openFirst clauses, P c := by
  cases clauses with
  | nil => exact h
  | cons first rest =>
    intro c hc
    rcases List.mem_cons.mp hc with rfl | hc
    · exact hP first _ (h first List.mem_cons_self)
    · exact h c (List.mem_cons_of_mem _ hc)

end Clause

theorem Clause.forall_readable_forConda {clauses : List Clause} (h : ∀ c ∈ clauses, c.Readable) :
    ∀ c ∈ clauses.map forConda, c.Readable :=
  List.forall_mem_map.mpr fun c hc => (h c hc).with_operator _

/-- The part after the name is made of clauses too. -/
theorem Constraint.specifier_conda (c : Constraint) :
    c.specifier .conda = Text.join ',' ((c.clauses.map Clause.forConda).map Clause.text) := by
  rw [specifier, List.map_map]
  exact congrArg _ (List.map_congr_left fun clause _ => clause.condaText_eq)

theorem Constraint.unblank_specifier_conda {c : Constraint}
    (h : ∀ clause ∈ c.clauses, clause.Readable) : Text.Unblank (c.specifier .conda).toList := by
  rw [specifier_conda]
  exact unblank_join_text (Clause.forall_readable_forConda h)

namespace Requirement

theorem dropEquals_of_ne {cs : List Char} (h : cs.head? ≠ some '=') : dropEquals cs = cs := by
  unfold dropEquals
  split
  · exact absurd rfl h
  · exact absurd rfl h
  · rfl

/-- An equals sign in front is dropped if no other one follows it. -/
theorem dropEquals_cons {cs : List Char} (h : cs.head? ≠ some '=') :
    dropEquals ('=' :: cs) = cs := by
  cases cs with
  | nil => rfl
  | cons c rest =>
    have hc : c ≠ '=' := fun he => h (by rw [he, List.head?_cons])
    rw [dropEquals, if_neg hc]

/-- Dropping the equals sign of a line opens its first clause. -/
theorem dropEquals_join_text {clauses : List Clause} (hr : ∀ c ∈ clauses, c.Readable)
    (hm : ∀ c ∈ clauses, c.Unmarked) :
    dropEquals (Text.join ',' (clauses.map Clause.text)).toList =
      (Text.join ',' ((Clause.openFirst clauses).map Clause.text)).toList := by
  cases clauses with
  | nil => decide
  | cons c rest =>
    obtain ⟨x, xs, hx⟩ := List.exists_cons_of_ne_nil (hr c List.mem_cons_self).nonempty
    have hmark := hm c List.mem_cons_self x (by rw [hx]; rfl)
    obtain ⟨tail, htail⟩ := Text.exists_toList_join_cons ',' (rest.map Clause.text)
    have hne : x ≠ '=' := by
      rintro rfl
      exact absurd hmark (by decide)
    rw [Clause.openFirst, List.map_cons, List.map_cons, htail, htail]
    simp only [Clause.text, String.toList_append, hx]
    obtain ⟨op, version⟩ := c
    cases op with
    | equal => simp [Operator.symbol, dropEquals, hne]
    | exact => simp [Operator.symbol, dropEquals]
    | caret | tilde | compatible | notEqual | greaterEq | lessEq | greater | less | bare =>
      exact dropEquals_of_ne (by simp [Operator.symbol, hne])

/-- A name as a line can begin with it. -/
structure IsName (name : String) : Prop where
  nonempty : name ≠ ""
  unblank : Text.Unblank name.toList
  unmarked : ∀ c ∈ name.toList, Operator.isMark c = false
  no_comment : name.toList.head? ≠ some '#'

instance (name : String) : Decidable (IsName name) :=
  have := List.decidableBAll (fun c => Operator.isMark c = false) name.toList
  decidable_of_iff (name ≠ "" ∧ Text.Unblank name.toList ∧
      (∀ c ∈ name.toList, Operator.isMark c = false) ∧ name.toList.head? ≠ some '#')
    ⟨fun ⟨h1, h2, h3, h4⟩ => ⟨h1, h2, h3, h4⟩, fun ⟨h1, h2, h3, h4⟩ => ⟨h1, h2, h3, h4⟩⟩

theorem endsName_eq (c : Char) : endsName c = (Operator.isMark c || Text.isBlank c) := rfl

/-- A line splits where the first character stands that cannot be part of a name. Blanks before the
name are dropped, and what follows it is trimmed. -/
theorem readLine?_of_name {lead name rest : String} (hlead : Text.isAllBlank lead = true)
    (hn : IsName name) (hrest : ∀ c, rest.toList.head? = some c → endsName c = true) :
    readLine? (lead ++ name ++ rest) =
      some (name, String.ofList (dropEquals (Text.trimChars rest.toList))) := by
  have hnil : name.toList ≠ [] := by simpa using hn.nonempty
  have hfirst : ∀ c, name.toList.head? = some c → Text.isBlank c = false :=
    fun c hc => hn.unblank c (List.mem_of_head? hc)
  have hlast : ∀ c, name.toList.getLast? = some c → Text.isBlank c = false :=
    fun c hc => hn.unblank c (List.mem_of_getLast? hc)
  have hline : Text.trimChars (lead ++ name ++ rest).toList =
      name.toList ++ Text.trimEndChars rest.toList := by
    rw [String.toList_append, String.toList_append, List.append_assoc, Text.trimChars,
      Text.trimStartChars_blanks_append (List.all_eq_true.mp hlead),
      Text.trimStartChars_append hnil hfirst, Text.trimEndChars_append hlast]
  have hhash : (name.toList ++ Text.trimEndChars rest.toList).head? ≠ some '#' := by
    rw [List.head?_append_of_ne_nil _ hnil]
    exact hn.no_comment
  have hname : ∀ c ∈ name.toList, (!endsName c) = true := by
    intro c hc
    rw [endsName_eq, hn.unmarked c hc, hn.unblank c hc]
    rfl
  have hend : ∀ c, (Text.trimEndChars rest.toList).head? = some c → (!endsName c) = false := by
    intro c hc
    obtain ⟨tail, htail⟩ : Text.trimEndChars rest.toList <+: rest.toList :=
      List.rdropWhile_prefix _ _
    rw [hrest c (by rw [← htail, List.head?_append, hc, Option.some_or])]
    rfl
  have htake := Text.takeWhile_append_of_head hname hend
  have hdrop := Text.dropWhile_append_of_head hname hend
  simp only [readLine?, hline, if_neg hhash, htake, hdrop, List.isEmpty_iff, if_neg hnil,
    Text.trimChars_trimEndChars, String.ofList_toList]

/-- Where nothing is blank, the name and what follows it are the two halves of the line. -/
theorem readLine?_append {name spec : String} (hn : IsName name) (hs : Text.Unblank spec.toList)
    (hhead : ∀ c, spec.toList.head? = some c → Operator.isMark c = true) :
    readLine? (name ++ spec) = some (name, String.ofList (dropEquals spec.toList)) := by
  have hend : ∀ c, spec.toList.head? = some c → endsName c = true := by
    intro c hc
    rw [endsName_eq, hhead c hc, Bool.true_or]
  have hread : readLine? ("" ++ name ++ spec) = _ := readLine?_of_name rfl hn hend
  rwa [String.empty_append, Text.trimChars_of_unblank hs] at hread

end Requirement

/-- The part after the name begins with the symbol of its first clause, if it is there. -/
theorem Constraint.exists_symbol_of_head_specifier {c : Constraint} {x : Char}
    (h : (c.specifier .conda).toList.head? = some x) :
    ∃ op : Operator, op.forConda.symbol.toList.head? = some x := by
  rw [specifier_conda] at h
  cases hcs : c.clauses with
  | nil =>
    rw [hcs] at h
    cases h
  | cons first rest =>
    obtain ⟨tail, htail⟩ := Text.exists_toList_join_cons ',' ((rest.map Clause.forConda).map Clause.text)
    rw [hcs, List.map_cons, List.map_cons, htail, Clause.text, Clause.forConda,
      String.toList_append, List.append_assoc,
      List.head?_append_of_ne_nil _ first.operator.symbol_forConda_ne_nil] at h
    exact ⟨first.operator, h⟩

theorem Constraint.isMark_head_specifier {c : Constraint} {x : Char}
    (h : (c.specifier .conda).toList.head? = some x) : Operator.isMark x = true := by
  obtain ⟨op, hop⟩ := exists_symbol_of_head_specifier h
  cases op <;> cases hop <;> decide

namespace Record

/-- The clauses that are read from a conda line. -/
def opened (r : Record) : List Clause := Clause.openFirst (r.constraint.clauses.map Clause.forConda)

/-- They are written in the same way as the clauses of the record. -/
theorem line_conda_opened (r : Record) (text : String) (channel : Channel) :
    Record.line .conda ⟨r.name, ⟨text, r.opened⟩, channel⟩ = r.line .conda := by
  have hidem : (r.constraint.clauses.map Clause.forConda).map Clause.forConda =
      r.constraint.clauses.map Clause.forConda := by
    rw [List.map_map]
    exact List.map_congr_left fun c _ => c.forConda_forConda
  simp only [line, Constraint.specifier_conda, opened, Clause.map_forConda_openFirst, hidem]

section Reading
variable {r : Record} (hr : ∀ c ∈ r.constraint.clauses, c.Readable)
  (hm : ∀ c ∈ r.constraint.clauses, c.Unmarked)
include hr hm

theorem readLine?_line_conda (hn : Requirement.IsName r.name) :
    Requirement.readLine? (r.line .conda) =
      some (r.name, Text.join ',' (r.opened.map Clause.text)) := by
  have hr' := Clause.forall_readable_forConda hr
  have hm' : ∀ c ∈ r.constraint.clauses.map Clause.forConda, c.Unmarked :=
    List.forall_mem_map.mpr hm
  have hspec := Constraint.unblank_specifier_conda hr
  have hhead := fun x => Constraint.isMark_head_specifier (c := r.constraint) (x := x)
  rw [line, Requirement.readLine?_append hn hspec hhead, Constraint.specifier_conda,
    Requirement.dropEquals_join_text hr' hm', String.ofList_toList, opened]

theorem parse?_join_opened (hstar : ∀ op, r.constraint.clauses ≠ [⟨op, "*"⟩]) :
    Constraint.parse? (Text.join ',' (r.opened.map Clause.text)) =
      some ⟨Text.join ',' (r.opened.map Clause.text), r.opened⟩ := by
  refine Constraint.parse?_join_text ?_ ?_ ?_
  · exact Clause.forall_mem_openFirst (fun _ op h => h.with_operator op)
      (Clause.forall_readable_forConda hr)
  · exact Clause.forall_mem_openFirst (fun _ _ h => h) (List.forall_mem_map.mpr hm)
  · intro hopened
    cases hclauses : r.constraint.clauses with
    | nil => simp [opened, hclauses, Clause.openFirst] at hopened
    | cons c rest =>
      simp only [opened, hclauses, List.map_cons, Clause.openFirst, List.cons.injEq,
        Clause.mk.injEq, List.map_eq_nil_iff] at hopened
      obtain ⟨⟨-, hversion⟩, rfl⟩ := hopened
      have hc : c = ⟨c.operator, "*"⟩ := by rw [← hversion]; rfl
      exact hstar c.operator (by rw [hclauses, ← hc])

end Reading

/-- The text that is read is the one that was written, where that has no operator to lose. -/
theorem join_opened_of_plain {r : Record}
    (h : Constraint.parse? r.constraint.text = some r.constraint)
    (hplain : r.constraint.text = "" ∨
      (∃ v, r.constraint.clauses = [⟨.bare, v⟩]) ∧
        Text.trim r.constraint.text = r.constraint.text) :
    Text.join ',' (r.opened.map Clause.text) = r.constraint.text := by
  rcases hplain with hempty | ⟨⟨v, hbare⟩, htrim⟩
  · rw [hempty] at h ⊢
    have hnone : Constraint.parse? "" = some ⟨"", []⟩ := by decide
    rw [hnone] at h
    rw [opened, ← Option.some.inj h]
    decide
  · rw [← htrim, Constraint.trim_eq_version_of_bare h hbare, opened, hbare]
    simp [Clause.openFirst, Clause.forConda, Operator.forConda, Clause.text, Operator.symbol,
      Text.join_singleton]

/-- The lines of a conda text are those of its records, and from each line the name is read and a
constraint that is written as the same line. The constraint's own text is read where it is empty or
one version without an operator. -/
theorem linesText_conda_reads_back {records : List Record}
    (hname : ∀ r ∈ records, Requirement.IsName r.name)
    (hread : ∀ r ∈ records, ∃ raw, Constraint.parse? raw = some r.constraint)
    (hmark : ∀ r ∈ records, ∀ c ∈ r.constraint.clauses, c.Unmarked)
    (hstar : ∀ r ∈ records, ∀ op, r.constraint.clauses ≠ [⟨op, "*"⟩]) :
    List.Forall₂
      (fun r line => ∃ s reread,
        Requirement.readLine? line = some (r.name, s) ∧ Constraint.parse? s = some reread ∧
          (∀ channel, Record.line .conda ⟨r.name, reread, channel⟩ = line) ∧
          (r.constraint.text = "" ∨
              (∃ v, r.constraint.clauses = [⟨.bare, v⟩]) ∧
                Text.trim r.constraint.text = r.constraint.text →
            s = r.constraint.text))
      records (Text.lines (linesText .conda records)) := by
  have hunblank : ∀ l ∈ records.map (line .conda), Text.Unblank l.toList := by
    rw [List.forall_mem_map]
    intro r hr
    obtain ⟨raw, hraw⟩ := hread r hr
    have hspec := Constraint.unblank_specifier_conda (Constraint.readable_of_parse? hraw)
    rw [line, String.toList_append]
    exact Text.unblank_append.mpr ⟨(hname r hr).unblank, hspec⟩
  have hlines : Text.lines (linesText .conda records) = records.map (line .conda) := by
    rw [← Text.lines_join hunblank, linesText_eq]
  rw [hlines, List.forall₂_map_right_iff, List.forall₂_same]
  intro r hr
  obtain ⟨raw, hraw⟩ := hread r hr
  have hreadable := Constraint.readable_of_parse? hraw
  obtain rfl := (Constraint.parse?_eq_some_iff.mp hraw).1
  exact ⟨_, _, readLine?_line_conda hreadable (hmark r hr) (hname r hr),
    parse?_join_opened hreadable (hmark r hr) (hstar r hr), r.line_conda_opened _,
    join_opened_of_plain hraw⟩

def fourRecords : List Record :=
  [⟨"numpy", ⟨"^1.16", [⟨.caret, "1.16"⟩]⟩, .standard⟩,
    ⟨"python", ⟨"3.7.*", [⟨.bare, "3.7.*"⟩]⟩, .standard⟩,
    ⟨"pip", ⟨"", []⟩, .standard⟩,
    ⟨"pytest", ⟨"~5, != 5.1", [⟨.tilde, "5"⟩, ⟨.notEqual, "5.1"⟩]⟩, .standard⟩]

theorem linesText_conda_reads_back_four_records :
    List.Forall₂
      (fun r line => ∃ s reread,
        Requirement.readLine? line = some (r.name, s) ∧ Constraint.parse? s = some reread ∧
          (∀ channel, Record.line .conda ⟨r.name, reread, channel⟩ = line) ∧
          (r.constraint.text = "" ∨
              (∃ v, r.constraint.clauses = [⟨.bare, v⟩]) ∧
                Text.trim r.constraint.text = r.constraint.text →
            s = r.constraint.text))
      fourRecords (Text.lines (linesText .conda fourRecords)) := by
  have hread : ∀ r ∈ fourRecords, Constraint.parse? r.constraint.text = some r.constraint := by
    decide
  have hstar : ∀ r ∈ fourRecords, r.constraint.clauses.map Clause.version ≠ ["*"] := by decide
  refine linesText_conda_reads_back (by decide) (fun r hr => ⟨_, hread r hr⟩) (by decide) ?_
  intro r hr op hclauses
  exact hstar r hr (by rw [hclauses]; rfl)

example : Text.lines (linesText .conda fourRecords) =
    ["numpy=1.16", "python=3.7.*", "pip", "pytest=5,!=5.1"] := by decide

end Record

end EnvSpec
