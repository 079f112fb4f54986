import EnvSpec.Text.Blank
import EnvSpec.Text.Numeral

/-!
# Numerals are read exactly

A decimal numeral is read as the number whose digits it has. Without superfluous zeros in front
there is one numeral for each number, the one that is written for it.
-/
namespace EnvSpec.Text

theorem digit?_of_isDigit {c : Char} (h : c.isDigit = true) :
    digit? 10 c = some (c.toNat - '0'.toNat) := by
  have hrange : 48 ≤ c.toNat ∧ c.toNat ≤ 57 := Char.isDigit_iff_toNat.mp h
  have hvalue : c.toNat - '0'.toNat < 10 := by
    show c.toNat - 48 < 10
    omega
  simp only [digit?, h, if_true, if_pos hvalue]

/-- In base ten letters are no digits. -/
theorem isDigit_of_digit? {c : Char} {n : Nat} (h : digit? 10 c = some n) : c.isDigit = true := by
  cases hdigit : c.isDigit with
  | true => rfl
  | false =>
    have hlarge : ¬(if c.isLower = true then c.toNat - 'a'.toNat + 10
        else if c.isUpper = true then c.toNat - 'A'.toNat + 10 else 10) < 10 := by
      split
      · omega
      · split <;> omega
    simp only [digit?, hdigit, if_neg Bool.false_ne_true, if_neg hlarge] at h
    cases h

theorem foldlM_digits {cs : List Char} (h : ∀ c ∈ cs, c.isDigit = true) (n : Nat) :
    cs.foldlM (fun n c => (digit? 10 c).map (n * 10 + ·)) n = some (Nat.ofDigitChars 10 cs n) := by
  induction cs generalizing n with
  | nil => simp
  | cons c cs ih =>
    have hrest := ih fun d hd => h d (List.mem_cons_of_mem _ hd)
    rw [List.foldlM_cons, digit?_of_isDigit (h c List.mem_cons_self), Nat.ofDigitChars_cons,
      Nat.mul_comm 10 n]
    exact hrest _

theorem forall_isDigit_of_foldlM {cs : List Char} {n v : Nat}
    (h : cs.foldlM (fun n c => (digit? 10 c).map (n * 10 + ·)) n = some v) :
    ∀ c ∈ cs, c.isDigit = true := by
  induction cs generalizing n with
  | nil => exact List.forall_mem_nil _
  | cons c cs ih =>
    rw [List.foldlM_cons] at h
    obtain ⟨m, hm, hrest⟩ := Option.bind_eq_some_iff.mp h
    obtain ⟨d, hd, -⟩ := Option.map_eq_some_iff.mp hm
    exact List.forall_mem_cons.mpr ⟨isDigit_of_digit? hd, ih hrest⟩

/-- A numeral is at least one digit and nothing else, and its digits give the number. -/
theorem numeral?_eq_some_iff {cs : List Char} {n : Nat} :
    numeral? 10 cs = some n ↔
      cs ≠ [] ∧ (∀ c ∈ cs, c.isDigit = true) ∧ Nat.ofDigitChars 10 cs 0 = n := by
  unfold numeral?
  split
  · next hempty => simp [List.isEmpty_iff.mp hempty]
  · next hempty =>
    have hne : cs ≠ [] := by simpa using hempty
    constructor
    · intro h
      have hdigits := forall_isDigit_of_foldlM h
      rw [foldlM_digits hdigits] at h
      exact ⟨hne, hdigits, Option.some.inj h⟩
    · rintro ⟨-, hdigits, rfl⟩
      exact foldlM_digits hdigits 0

theorem isDigit_of_mem_repr {n : Nat} {c : Char} (h : c ∈ n.repr.toList) : c.isDigit = true := by
  rw [Nat.toList_repr] at h
  exact Nat.isDigit_of_mem_toDigits (by decide) (by decide) h

theorem isBlank_of_isDigit {c : Char} (h : c.isDigit = true) : isBlank c = false := by
  have hrange : 48 ≤ c.toNat ∧ c.toNat ≤ 57 := Char.isDigit_iff_toNat.mp h
  simp only [isBlank, blankRanges, List.any_cons, List.any_nil, Bool.or_false, Bool.or_eq_false_iff,
    Bool.and_eq_false_iff, decide_eq_false_iff_not]
  omega

theorem numeral?_repr (n : Nat) : numeral? 10 n.repr.toList = some n := by
  rw [numeral?_eq_some_iff]
  refine ⟨by simp, fun c hc => isDigit_of_mem_repr hc, ?_⟩
  rw [Nat.toList_repr, Nat.ofDigitChars_ten_toDigits]

/-- Only zero is written with a zero in front. -/
theorem head?_toDigits_ne_zero {n : Nat} (h : 0 < n) : (Nat.toDigits 10 n).head? ≠ some '0' := by
  induction n using Nat.strongRecOn with
  | _ n ih =>
    rw [Nat.toDigits_eq_if (by decide)]
    split
    · rw [List.head?_cons, ne_eq, Option.some.injEq, Nat.digitChar_eq_zero]
      omega
    · obtain ⟨c, cs, hcs⟩ := List.exists_cons_of_ne_nil (Nat.toDigits_ne_nil (b := 10) (n := n / 10))
      have hhead := ih (n / 10) (by omega) (by omega)
      rw [hcs] at hhead ⊢
      exact hhead

theorem plainNumeral?_repr (n : Nat) : plainNumeral? n.repr.toList = some n := by
  have hplain : ¬(n.repr.toList.length > 1 && n.repr.toList.head? == some '0') = true := by
    rw [Bool.and_eq_true, decide_eq_true_eq, beq_iff_eq, Nat.toList_repr]
    rintro ⟨hlength, hhead⟩
    rcases Nat.eq_zero_or_pos n with rfl | hn
    · exact absurd hlength (by decide)
    · exact head?_toDigits_ne_zero hn hhead
  rw [plainNumeral?, if_neg hplain, numeral?_repr]

theorem digitChar_sub {c : Char} (h : c.isDigit = true) :
    Nat.digitChar (c.toNat - '0'.toNat) = c := by
  have hrange : 48 ≤ c.toNat ∧ c.toNat ≤ 57 := Char.isDigit_iff_toNat.mp h
  have hzero : '0'.toNat = 48 := rfl
  rw [← Char.toNat_inj, Nat.toNat_digitChar_of_lt_ten (by omega)]
  omega

/-- Digits behind the numeral of a number that is not zero make the numeral of what they give. -/
theorem toDigits_append_digits {cs : List Char} (h : ∀ c ∈ cs, c.isDigit = true) {n : Nat}
    (hn : 0 < n) : Nat.toDigits 10 n ++ cs = Nat.toDigits 10 (Nat.ofDigitChars 10 cs n) := by
  induction cs generalizing n with
  | nil => rw [List.append_nil, Nat.ofDigitChars_nil]
  | cons c cs ih =>
    obtain ⟨hc, hcs⟩ := List.forall_mem_cons.mp h
    have hrange : 48 ≤ c.toNat ∧ c.toNat ≤ 57 := Char.isDigit_iff_toNat.mp hc
    have hzero : '0'.toNat = 48 := rfl
    have hdigit : c.toNat - '0'.toNat < 10 := by omega
    have hstep : Nat.toDigits 10 n ++ [c] = Nat.toDigits 10 (10 * n + (c.toNat - '0'.toNat)) := by
      rw [← Nat.toDigits_append_toDigits (by decide) hn hdigit, Nat.toDigits_of_lt_base hdigit,
        digitChar_sub hc]
    rw [Nat.ofDigitChars_cons, ← ih hcs (by omega), ← hstep, List.append_assoc,
      List.singleton_append]

/-- The numeral without superfluous zeros is the one that is written for its number. -/
theorem plainNumeral?_eq_some_iff {cs : List Char} {n : Nat} :
    plainNumeral? cs = some n ↔ cs = n.repr.toList := by
  constructor
  · intro h
    unfold plainNumeral? at h
    split at h
    · cases h
    next hplain =>
    obtain ⟨hne, hdigits, rfl⟩ := numeral?_eq_some_iff.mp h
    obtain ⟨c, rest, rfl⟩ := List.exists_cons_of_ne_nil hne
    obtain ⟨hc, hrest⟩ := List.forall_mem_cons.mp hdigits
    have hsingle : Nat.toDigits 10 (c.toNat - '0'.toNat) = [c] := by
      have hrange : 48 ≤ c.toNat ∧ c.toNat ≤ 57 := Char.isDigit_iff_toNat.mp hc
      have hzero : '0'.toNat = 48 := rfl
      rw [Nat.toDigits_of_lt_base (by omega), digitChar_sub hc]
    rw [Nat.toList_repr, Nat.ofDigitChars_cons, Nat.mul_zero, Nat.zero_add]
    rcases Nat.eq_zero_or_pos (c.toNat - '0'.toNat) with hzero | hpos
    · -- A zero in front is the whole numeral.
      rw [hzero, Nat.toDigits_zero] at hsingle
      have hc0 : c = '0' := (List.cons.inj hsingle).1.symm
      have hnil : rest = [] := by simpa [hc0] using hplain
      rw [hnil, hzero, Nat.ofDigitChars_nil, Nat.toDigits_zero, hc0]
    · rw [← toDigits_append_digits hrest hpos, hsingle, List.singleton_append]
  · rintro rfl
    exact plainNumeral?_repr n

end EnvSpec.Text
