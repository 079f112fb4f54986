import EnvSpec.Proofs.Text.Legible
import EnvSpec.Proofs.Yaml.Lines

/-!
# Scalars are legible

A string can be told from the scalar it is written as, whatever characters it has in it, and so can
the text after the line of the scalar. The first character shows the style. A plain scalar ends with
its line, a quoted one at the quote that closes it. A literal block ends before the first line that
is not indented.
-/
namespace EnvSpec.Yaml

open Text (Legible append_cons_inj)

theorem endLine_of_unbroken {cs : List Char} (h : ∀ c ∈ cs, isBreak c = false) :
    endLine cs = cs ++ ['\n'] := by
  have hlast : endsWith isBreak cs = false := by
    rw [endsWith, Option.any_eq_false]
    exact fun c hc => h c (List.mem_of_getLast? hc)
  rw [endLine, hlast, if_neg Bool.false_ne_true]

theorem break_not_mem {cs : List Char} (h : ∀ c ∈ cs, isBreak c = false) : '\n' ∉ cs :=
  fun hmem => absurd (h _ hmem) (by decide)

/-- Text without line breaks can be told from the text after its line. -/
theorem endLine_append_inj {cs ds r r' : List Char} (hcs : ∀ c ∈ cs, isBreak c = false)
    (hds : ∀ c ∈ ds, isBreak c = false) (heq : endLine cs ++ r = endLine ds ++ r') :
    cs = ds ∧ r = r' := by
  rw [endLine_of_unbroken hcs, endLine_of_unbroken hds, List.append_assoc, List.append_assoc] at heq
  exact append_cons_inj (break_not_mem hcs) (break_not_mem hds) heq

/-- A character between single quotes. -/
def doubled (c : Char) : List Char := if c = '\'' then ['\'', '\''] else [c]

/-- Doubled quotes can be told from the quote at the end. -/
theorem legible_doubled : Legible (List.flatMap doubled) (· = ['\'', '\n']) := by
  have hchar : Legible doubled fun _ => True := by
    intro c d r r' _ _ heq
    unfold doubled at heq
    split at heq <;> split at heq
    · next hc hd => exact ⟨hc.trans hd.symm, (List.cons.inj (List.cons.inj heq).2).2⟩
    · next hc hd => exact absurd (List.cons.inj heq).1.symm hd
    · next hc hd => exact absurd (List.cons.inj heq).1 hc
    · exact List.cons.inj heq
  have hend (c : Char) (r : List Char) : doubled c ++ r ≠ ['\'', '\n'] := by
    unfold doubled
    split <;> simp_all
  exact hchar.flatMap (fun _ _ => trivial) (fun _ _ => trivial) hend

theorem endsLine_flatMap_doubled (atStart : Bool) (cs : List Char) :
    endsLine atStart (cs.flatMap doubled) = endsLine atStart cs := by
  induction cs generalizing atStart with
  | nil => rfl
  | cons c cs ih =>
    have hc : endsLine atStart (doubled c) = isBreak c := by
      unfold doubled
      split
      · next h =>
        subst h
        rfl
      · rfl
    rw [List.flatMap_cons, endsLine_append, ih, hc, endsLine_cons]

/-- The quote at the end is indented as a character of the text is. -/
theorem singleQuotedText_eq (indent : Nat) (cs : List Char) :
    singleQuotedText indent cs =
      ['\''] ++ indented indent false (cs.flatMap doubled ++ ['\'']) := by
  rw [indented_append, endsLine_flatMap_doubled, ← endsWith_isBreak, indented_cons]
  show '\'' :: indented indent false (cs.flatMap doubled) ++ _ ++ ['\''] = _
  rw [List.append_assoc]
  rfl

theorem legible_singleQuoted (indent : Nat) :
    Legible (fun cs => endLine (singleQuotedText indent cs)) (Ends indent) := by
  have hwritten (cs : List Char) : endLine (singleQuotedText indent cs) =
      ['\''] ++ indented indent false (cs.flatMap doubled ++ ['\'', '\n']) := by
    rw [singleQuotedText_eq, endLine_append_indented _ _ _ (by simp), endLine_concat _ (by decide)]
  have hends (cs : List Char) : endsLine false (cs.flatMap doubled ++ ['\'', '\n']) = true := by
    rw [endsLine_append]
    rfl
  intro cs ds r r' hr hr' heq
  simp only [hwritten, List.append_assoc] at heq
  obtain ⟨hdoubled, hr⟩ :=
    indented_append_inj (hends cs) (hends ds) hr hr' (List.append_cancel_left heq)
  exact ⟨(legible_doubled rfl rfl hdoubled).1, hr⟩

/-- The character at the front of a text written with escapes, and the rest of the text. -/
def readEscape : List Char → Option (Char × List Char)
  | '\\' :: 'x' :: a :: b :: rest =>
    (Text.numeral? 16 [a, b]).map fun n => (Char.ofNat n, rest)
  | '\\' :: 'u' :: a :: b :: c :: d :: rest =>
    (Text.numeral? 16 [a, b, c, d]).map fun n => (Char.ofNat n, rest)
  | '\\' :: letter :: rest => (shortEscapes.find? (·.2 = letter)).map fun p => (p.1, rest)
  | c :: rest => some (c, rest)
  | [] => none

theorem readEscape_short {p : Char × Char} (h : p ∈ shortEscapes) (rest : List Char) :
    readEscape ('\\' :: p.2 :: rest) = some (p.1, rest) := by
  have hletters : ∀ p ∈ shortEscapes,
      p.2 ≠ 'x' ∧ p.2 ≠ 'u' ∧ shortEscapes.find? (·.2 = p.2) = some p := by
    decide
  obtain ⟨hx, hu, hfind⟩ := hletters p h
  simp [readEscape, hx, hu, hfind]

theorem numeral?_hexDigits {n : Nat} (h : n ≤ 0xFF) :
    Text.numeral? 16 (hexDigits 2 n) = some n := by
  have hall : ∀ n ≤ 0xFF, Text.numeral? 16 (hexDigits 2 n) = some n := by decide +kernel
  exact hall n h

theorem readEscape_escape (c : Char) (rest : List Char) :
    readEscape (escape c ++ rest) = some (c, rest) := by
  unfold escape
  split
  · next letter hletter =>
    obtain ⟨front, back, hsplit, -⟩ := List.lookup_eq_some_iff.mp hletter
    exact readEscape_short (p := (c, letter)) (by rw [hsplit]; simp) rest
  · next hnone =>
    split
    · have hne : c ≠ '\\' := by
        rintro rfl
        exact absurd hnone (by decide)
      simp [readEscape, hne]
    · next hprintable =>
      split
      · next hsmall =>
        show (Text.numeral? 16 (hexDigits 2 c.toNat)).map _ = _
        rw [numeral?_hexDigits hsmall, Option.map_some, Char.ofNat_toNat]
        rfl
      · next hlarge =>
        have hmark : c.toNat = 0xFEFF ∨ c.toNat = 0xFFFE ∨ c.toNat = 0xFFFF := by
          simp [isPrintable] at hprintable
          omega
        have hread : Text.numeral? 16 (hexDigits 4 c.toNat) = some c.toNat := by
          rcases hmark with h | h | h <;> rw [h] <;> decide
        show (Text.numeral? 16 (hexDigits 4 c.toNat)).map _ = _
        rw [hread, Option.map_some, Char.ofNat_toNat]
        rfl

theorem legible_doubleQuoted : Legible (fun cs => endLine (doubleQuotedText cs)) fun _ => True := by
  have hchar : Legible escape fun _ => True := by
    intro c d r r' _ _ heq
    have hread := readEscape_escape c r
    rw [heq, readEscape_escape] at hread
    exact Prod.mk.inj (Option.some.inj hread.symm)
  have hend (c : Char) (r : List Char) : (escape c ++ r).head? ≠ some '"' := by
    intro hhead
    obtain ⟨rest, hrest⟩ := List.head?_eq_some_iff.mp hhead
    have hread := readEscape_escape c r
    rw [hrest] at hread
    obtain ⟨rfl, -⟩ := Prod.mk.inj (Option.some.inj hread)
    cases hrest
  have hchars : Legible (List.flatMap escape) fun r => r.head? = some '"' :=
    hchar.flatMap (fun _ _ => trivial) (fun _ _ => trivial) hend
  have hwritten (cs : List Char) :
      endLine (doubleQuotedText cs) = '"' :: cs.flatMap escape ++ ['"', '\n'] :=
    endLine_concat ('"' :: cs.flatMap escape) (by decide)
  intro cs ds r r' _ _ heq
  simp only [hwritten, List.cons_append, List.append_assoc, List.cons.injEq, true_and] at heq
  obtain ⟨rfl, hr⟩ := hchars rfl rfl heq
  exact ⟨rfl, (List.cons.inj (List.cons.inj hr).2).2⟩

/-- The marks of a literal block show whether its text ends its last line. -/
theorem endsWith_isBreak_of_marks (cs : List Char) :
    endsWith isBreak cs = !(literalMarks cs).contains '-' := by
  have hfront :
      (if startsWith (fun c => isSpace c || isBreak c) cs then ['2'] else []).contains '-' =
        false := by
    split <;> rfl
  rw [literalMarks, List.contains_append, hfront, Bool.false_or, endsWith, ← List.head?_reverse]
  split
  · next h => rw [h]; rfl
  · next c h =>
    rw [h]
    cases hc : isBreak c <;> simp [hc]
  · next c d rest h =>
    rw [h]
    cases hc : isBreak c <;> cases hd : isBreak d <;> simp [hc]

theorem break_not_mem_literalMarks (cs : List Char) : '\n' ∉ literalMarks cs := by
  rw [literalMarks, List.mem_append, not_or]
  constructor
  · split <;> decide
  · repeat' split
    all_goals decide

/-- A literal block with some text in it can be told from what follows it. -/
theorem endLine_literalText_append_inj {indent : Nat} {cs ds r r' : List Char} (hcs : cs ≠ [])
    (hds : ds ≠ []) (hr : Ends indent r) (hr' : Ends indent r')
    (heq : endLine (literalText indent cs) ++ r = endLine (literalText indent ds) ++ r') :
    cs = ds ∧ r = r' := by
  have hwritten {cs : List Char} (hne : cs ≠ []) : endLine (literalText indent cs) =
      '|' :: literalMarks cs ++ '\n' :: indented indent true (endLine cs) := by
    have hindented := endLine_append_indented ('|' :: literalMarks cs ++ ['\n']) indent true hne
    simpa [literalText] using hindented
  simp only [hwritten hcs, hwritten hds, List.cons_append, List.append_assoc, List.cons.injEq,
    true_and] at heq
  obtain ⟨hmarks, hlines⟩ := append_cons_inj (break_not_mem_literalMarks cs)
    (break_not_mem_literalMarks ds) heq
  obtain ⟨htext, hr⟩ := indented_append_inj (endsLine_endLine true cs) (endsLine_endLine true ds)
    hr hr' hlines
  refine ⟨?_, hr⟩
  have hends : endsWith isBreak cs = endsWith isBreak ds := by
    rw [endsWith_isBreak_of_marks, endsWith_isBreak_of_marks, hmarks]
  unfold endLine at htext
  rw [hends] at htext
  split at htext
  · exact htext
  · exact List.append_cancel_right htext

theorem style_eq_plain {cs : List Char} (h : style cs = .plain) :
    allowsPlain cs = true ∧ isResolved cs = false := by
  unfold style at h
  split at h
  · split at h <;> cases h
  split at h
  · next hplain => simpa using hplain
  · split at h <;> cases h

theorem ne_nil_of_literal {cs : List Char} (h : style cs = .literal) : cs ≠ [] := by
  rintro rfl
  exact absurd h (by decide)

/-- Text that can be written as it is has no line breaks. -/
theorem unbroken_of_plain {cs : List Char} (h : style cs = .plain) :
    ∀ c ∈ cs, isBreak c = false := by
  have hallows := (style_eq_plain h).1
  simp only [allowsPlain, Bool.and_eq_true, Bool.not_eq_true', List.any_eq_false] at hallows
  exact fun c hc => Bool.eq_false_iff.mpr (hallows.1.1.1.1.1.1.2 c hc)

/-- The style that the first character of a scalar shows. -/
def Style.shownBy (c : Char) : Style :=
  if c = '\'' then .singleQuoted
  else if c = '"' then .doubleQuoted
  else if c = '|' then .literal
  else .plain

theorem shownBy_head_of_plain {cs : List Char} (h : style cs = .plain) :
    cs.head?.map Style.shownBy = some .plain := by
  obtain ⟨hallows, hresolved⟩ := style_eq_plain h
  cases cs with
  | nil => exact absurd hresolved (by decide)
  | cons c cs =>
    have hlead : c ∉ indicators := by
      simp only [allowsPlain, Bool.and_eq_true, Bool.not_eq_true'] at hallows
      simpa [startsWith] using hallows.1.1.1.2
    have hother : ∀ d ∈ indicators, c ≠ d := fun d hd he => hlead (he ▸ hd)
    simp only [List.head?_cons, Option.map_some, Style.shownBy]
    rw [if_neg (hother _ (by decide)), if_neg (hother _ (by decide)), if_neg (hother _ (by decide))]

theorem shownBy_head (indent : Nat) (s : String) (r : List Char) :
    (endLine (scalar indent s) ++ r).head?.map Style.shownBy = some (style s.toList) := by
  have hscalar : (scalar indent s).head?.map Style.shownBy = some (style s.toList) := by
    unfold scalar
    cases hstyle : style s.toList with
    | plain => simpa only [hstyle] using shownBy_head_of_plain hstyle
    | singleQuoted => simp only [hstyle]; rfl
    | doubleQuoted => simp only [hstyle]; rfl
    | literal => simp only [hstyle]; rfl
  have hhead : (endLine (scalar indent s) ++ r).head? = (scalar indent s).head? := by
    cases hcs : scalar indent s with
    | nil =>
      rw [hcs] at hscalar
      cases hscalar
    | cons c cs =>
      unfold endLine
      split <;> rfl
  rw [hhead, hscalar]

/-- A line that shows no other style is the text of a plain scalar. -/
theorem style_of_line (line : List Char) {indent : Nat} {s : String} {r r' : List Char}
    (heq : endLine (scalar indent s) ++ r = line ++ '\n' :: r') (hbreak : '\n' ∉ line)
    (hshown : line.head?.map Style.shownBy = some .plain) : style line = .plain := by
  have hhead : (line ++ '\n' :: r').head? = line.head? := by
    cases line with
    | nil => cases hshown
    | cons c line => rfl
  have hstyle : style s.toList = .plain :=
    Option.some.inj (by rw [← shownBy_head indent s r, heq, hhead, hshown])
  have hunbroken := unbroken_of_plain hstyle
  simp only [scalar, hstyle, endLine_of_unbroken hunbroken, List.append_assoc] at heq
  rw [← (append_cons_inj (break_not_mem hunbroken) hbreak heq).1, hstyle]

/-- Scalars with their line ended are legible. -/
theorem legible_scalar (indent : Nat) :
    Legible (fun s => endLine (scalar indent s)) (Ends indent) := by
  intro s t r r' hr hr' heq
  have hstyle : style s.toList = style t.toList :=
    Option.some.inj (by rw [← shownBy_head indent s r, heq, shownBy_head])
  suffices h : s.toList = t.toList ∧ r = r' from ⟨String.toList_inj.mp h.1, h.2⟩
  cases ht : style t.toList with
  | plain =>
    have hs := hstyle.trans ht
    simp only [scalar, hs, ht] at heq
    exact endLine_append_inj (unbroken_of_plain hs) (unbroken_of_plain ht) heq
  | singleQuoted =>
    simp only [scalar, hstyle.trans ht, ht] at heq
    exact legible_singleQuoted indent hr hr' heq
  | doubleQuoted =>
    simp only [scalar, hstyle.trans ht, ht] at heq
    exact legible_doubleQuoted trivial trivial heq
  | literal =>
    have hs := hstyle.trans ht
    simp only [scalar, hs, ht] at heq
    exact endLine_literalText_append_inj (ne_nil_of_literal hs) (ne_nil_of_literal ht) hr hr' heq

end EnvSpec.Yaml
