import EnvSpec.Proofs.Requirement.Conda

/-!
# Blanks in a line

The ends of a line are trimmed, and so is what follows the name. The equals sign in front of that is
dropped afterwards, and what stood behind the sign is not trimmed again. So blanks are lost around
the line and before the sign, and those behind the sign are read as part of the constraint. They
change the text of the constraint and none of its clauses.
-/
namespace EnvSpec

/-- The clauses of a constraint do not depend on blanks at the ends of its text. -/
theorem Constraint.map_clauses_parse?_congr {s t : String} (h : Text.trim s = Text.trim t) :
    (parse? s).map clauses = (parse? t).map clauses := by
  simp only [parse?, h]
  split
  · rfl
  · rw [Option.map_map, Option.map_map]
    rfl

namespace Requirement

/-- A version as it can follow the equals sign of a line. -/
structure IsVersion (version : String) : Prop where
  nonempty : version ≠ ""
  unblank : Text.Unblank version.toList
  unmarked : ∀ c ∈ version.toList.head?, Operator.isMark c = false

instance (version : String) : Decidable (IsVersion version) :=
  have := Option.decidableForallMem (p := fun c => Operator.isMark c = false) version.toList.head?
  decidable_of_iff (version ≠ "" ∧ Text.Unblank version.toList ∧
      ∀ c ∈ version.toList.head?, Operator.isMark c = false)
    ⟨fun ⟨h1, h2, h3⟩ => ⟨h1, h2, h3⟩, fun ⟨h1, h2, h3⟩ => ⟨h1, h2, h3⟩⟩

section Spaced
variable {lead name gap inner version trail : String} (hv : IsVersion version)
include hv

/-- Trimming what follows the name stops at the sign on one side and at the version on the other. -/
theorem trimChars_spaced (hgap : Text.isAllBlank gap = true) (htrail : Text.isAllBlank trail = true) :
    Text.trimChars (gap ++ "=" ++ inner ++ version ++ trail).toList =
      '=' :: (inner ++ version).toList := by
  have hlast : ∀ c, ('=' :: (inner ++ version).toList).getLast? = some c →
      Text.isBlank c = false := by
    intro c hc
    have hne : version.toList ≠ [] := by simpa using hv.nonempty
    rw [String.toList_append, ← List.cons_append, List.getLast?_append_of_ne_nil _ hne] at hc
    exact hv.unblank c (List.mem_of_getLast? hc)
  have hline : (gap ++ "=" ++ inner ++ version ++ trail).toList =
      gap.toList ++ (('=' :: (inner ++ version).toList) ++ trail.toList) := by
    simp [List.append_assoc]
  have hsign : ∀ c, ('=' :: (inner ++ version).toList).head? = some c → Text.isBlank c = false := by
    rintro c ⟨⟩
    decide
  have htrailing : Text.trimEndChars trail.toList = [] :=
    List.rdropWhile_eq_nil_iff.mpr (List.all_eq_true.mp htrail)
  rw [hline, Text.trimChars, Text.trimStartChars_blanks_append (List.all_eq_true.mp hgap),
    Text.trimStartChars_append (List.cons_ne_nil _ _) hsign, Text.trimEndChars_append hlast,
    htrailing, List.append_nil]

variable (hinner : Text.isAllBlank inner = true)
include hinner

/-- No equals sign stands behind the first one, so that one is dropped. -/
theorem head?_inner_append_ne : (inner ++ version).toList.head? ≠ some '=' := by
  rw [String.toList_append]
  intro hhead
  have hblanks := List.all_eq_true.mp hinner
  rcases Text.isBlank_or_head?_of_blanks_append hblanks hhead with hblank | hversion
  · exact absurd hblank (by decide)
  · exact absurd (hv.unmarked _ hversion) (by decide)

/-- A line is read as its name and its version, whatever blanks stand around them, up to the blanks
between the equals sign and the version: these stay in front of the version. The clauses that are
read are those of the version alone. -/
theorem readLine?_spaced (hn : IsName name) (hlead : Text.isAllBlank lead = true)
    (hgap : Text.isAllBlank gap = true) (htrail : Text.isAllBlank trail = true) :
    let line := lead ++ name ++ gap ++ "=" ++ inner ++ version ++ trail
    readLine? line = some (name, inner ++ version) ∧
    (readLine? line = some (name, version) ↔ inner = "") ∧
    (Constraint.parse? (inner ++ version)).map Constraint.clauses =
      (Constraint.parse? version).map Constraint.clauses := by
  intro line
  have hline : line = lead ++ name ++ (gap ++ "=" ++ inner ++ version ++ trail) := by
    simp only [line, String.append_assoc]
  have hends : ∀ c, (gap ++ "=" ++ inner ++ version ++ trail).toList.head? = some c →
      endsName c = true := by
    intro c hc
    simp only [String.toList_append, List.append_assoc] at hc
    rcases Text.isBlank_or_head?_of_blanks_append (List.all_eq_true.mp hgap) hc with hblank | hsign
    · rw [endsName_eq, hblank, Bool.or_true]
    · obtain rfl : '=' = c := Option.some.inj hsign
      decide
  have hread : readLine? line = some (name, inner ++ version) := by
    rw [hline, readLine?_of_name hlead hn hends, trimChars_spaced hv hgap htrail,
      dropEquals_cons (head?_inner_append_ne hv hinner), String.ofList_toList]
  refine ⟨hread, ?_, Constraint.map_clauses_parse?_congr ?_⟩
  · have hclean : inner ++ version = version ↔ inner = "" := by
      rw [← String.toList_inj, String.toList_append, List.append_left_eq_self,
        String.toList_eq_nil_iff]
    rw [hread, Option.some.injEq, Prod.mk.injEq, hclean]
    exact and_iff_right rfl
  · rw [Text.trim, String.toList_append, Text.trimChars,
      Text.trimStartChars_blanks_append (List.all_eq_true.mp hinner)]
    rfl

end Spaced

/-- Blanks in all four places of a line. -/
theorem readLine?_spaced_numpy :
    IsName "numpy" ∧ IsVersion "1.16" ∧
    readLine? ("  " ++ "numpy" ++ "\t" ++ "=" ++ " " ++ "1.16" ++ " ") = some ("numpy", " 1.16") ∧
    readLine? ("  " ++ "numpy" ++ "\t" ++ "=" ++ "" ++ "1.16" ++ " ") = some ("numpy", "1.16") ∧
    (Constraint.parse? " 1.16").map Constraint.clauses =
      (Constraint.parse? "1.16").map Constraint.clauses := by
  have hn : IsName "numpy" := by decide
  have hv : IsVersion "1.16" := by decide
  have hlead : Text.isAllBlank "  " = true := by decide
  have hgap : Text.isAllBlank "\t" = true := by decide
  have hblank : Text.isAllBlank " " = true := by decide
  have hnone : Text.isAllBlank "" = true := by decide
  obtain ⟨hkept, -, hclauses⟩ := readLine?_spaced hv hblank hn hlead hgap hblank
  obtain ⟨-, hclean, -⟩ := readLine?_spaced hv hnone hn hlead hgap hblank
  exact ⟨hn, hv, hkept, hclean.mpr rfl, hclauses⟩

/-- One blank behind the sign, and the version is not the one that was written. -/
theorem blankBehindSign_kept :
    IsName "x" ∧ IsVersion "1.16" ∧ Text.isAllBlank " " = true ∧
    readLine? ("" ++ "x" ++ "" ++ "=" ++ " " ++ "1.16" ++ "") ≠ some ("x", "1.16") := by
  decide

end Requirement

end EnvSpec
