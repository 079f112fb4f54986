import EnvSpec.Yaml.Scalar

/-!
# Lines of scalars

The lines that a scalar goes on with are indented. Where the last of them is ended, they can be told
from what follows them, as long as that is not indented as well: then indenting loses nothing.
-/
namespace EnvSpec.Yaml

/-- Whether a line begins after the text, if one begins with the text or not. -/
def endsLine (atStart : Bool) (cs : List Char) : Bool := (cs.getLast?.map isBreak).getD atStart

@[simp] theorem endsLine_nil (atStart : Bool) : endsLine atStart [] = atStart := rfl

@[simp] theorem endsLine_cons (atStart : Bool) (c : Char) (cs : List Char) :
    endsLine atStart (c :: cs) = endsLine (isBreak c) cs := by
  rw [endsLine, endsLine, List.getLast?_cons]
  cases cs.getLast? <;> rfl

theorem endsLine_append (atStart : Bool) (cs ds : List Char) :
    endsLine atStart (cs ++ ds) = endsLine (endsLine atStart cs) ds := by
  induction cs generalizing atStart with
  | nil => rfl
  | cons c cs ih => rw [List.cons_append, endsLine_cons, ih, endsLine_cons]

theorem endsWith_isBreak (cs : List Char) : endsWith isBreak cs = endsLine false cs := by
  rw [endsWith, endsLine]
  cases cs.getLast? <;> rfl

/-- Ending its line leaves a text at the start of a line. -/
theorem endsLine_endLine (atStart : Bool) (cs : List Char) :
    endsLine atStart (endLine cs) = true := by
  unfold endLine
  split
  · next h =>
    cases cs with
    | nil => cases h
    | cons c cs =>
      rw [endsWith_isBreak, endsLine_cons] at h
      rwa [endsLine_cons]
  · rw [endsLine_append]
    rfl

theorem endLine_concat (cs : List Char) {c : Char} (h : isBreak c = false) :
    endLine (cs ++ [c]) = cs ++ [c, '\n'] := by
  rw [endLine, endsWith_isBreak, endsLine_append, endsLine_cons, endsLine_nil, h,
    if_neg Bool.false_ne_true, List.append_assoc]
  rfl

/-- The lines of a text are indented one after the other. -/
theorem indented_cons (indent : Nat) (atStart : Bool) (c : Char) (cs : List Char) :
    indented indent atStart (c :: cs) =
      (if !isBreak c && atStart then List.replicate indent ' ' else []) ++
        c :: indented indent (isBreak c) cs := by
  rw [indented]
  cases h : isBreak c <;> cases atStart <;> rfl

theorem indented_append (indent : Nat) (atStart : Bool) (cs ds : List Char) :
    indented indent atStart (cs ++ ds) =
      indented indent atStart cs ++ indented indent (endsLine atStart cs) ds := by
  induction cs generalizing atStart with
  | nil => rfl
  | cons c cs ih =>
    rw [List.cons_append, indented_cons, ih, indented_cons, endsLine_cons, List.append_assoc,
      List.cons_append]

/-- Indenting a text adds nothing to its last line. -/
theorem endsLine_indented (indent : Nat) (atStart state : Bool) (cs : List Char) :
    endsLine state (indented indent atStart cs) = endsLine state cs := by
  induction cs generalizing atStart state with
  | nil => rfl
  | cons c cs ih => rw [indented_cons, endsLine_append, endsLine_cons, ih, endsLine_cons]

theorem endLine_append_indented (front : List Char) (indent : Nat) (atStart : Bool) {cs : List Char}
    (hne : cs ≠ []) :
    endLine (front ++ indented indent atStart cs) =
      front ++ indented indent atStart (endLine cs) := by
  have hends : endsWith isBreak (front ++ indented indent atStart cs) = endsWith isBreak cs := by
    obtain ⟨c, cs, rfl⟩ := List.exists_cons_of_ne_nil hne
    rw [endsWith_isBreak, endsWith_isBreak, endsLine_append, endsLine_indented, endsLine_cons,
      endsLine_cons]
  unfold endLine
  rw [hends]
  split
  · rfl
  · rw [indented_append, List.append_assoc]
    rfl

/-- The text does not go on with lines that are indented by `indent`. -/
structure Ends (indent : Nat) (r : List Char) : Prop where
  unbroken : ∀ c, r.head? = some c → isBreak c = false
  unindented : ¬List.replicate indent ' ' <+: r

/-- Lines that are indented do not end indented lines. -/
theorem not_ends_indented (indent : Nat) (c : Char) (cs r : List Char) :
    ¬Ends indent (indented indent true (c :: cs) ++ r) := by
  intro hends
  rw [indented_cons] at hends
  cases hc : isBreak c with
  | true =>
    have hfirst := hends.unbroken c (by simp [hc])
    exact absurd (hc.symm.trans hfirst) (by decide)
  | false =>
    refine hends.unindented ?_
    simp [hc]

/-- An empty line can be told from one that is not empty. -/
theorem startsWith_isBreak_indented (indent : Nat) (atStart : Bool) (c : Char) (cs r : List Char) :
    startsWith isBreak (indented indent atStart (c :: cs) ++ r) = isBreak c := by
  rw [indented_cons]
  split
  · next h =>
    rw [Bool.and_eq_true, Bool.not_eq_true'] at h
    cases indent with
    | zero => rfl
    | succ indent =>
      rw [h.1]
      rfl
  · rfl

/-- Indented lines that are ended can be told from what follows them. -/
theorem indented_append_inj {indent : Nat} {atStart : Bool} {cs ds r r' : List Char}
    (hcs : endsLine atStart cs = true) (hds : endsLine atStart ds = true) (hr : Ends indent r)
    (hr' : Ends indent r')
    (heq : indented indent atStart cs ++ r = indented indent atStart ds ++ r') :
    cs = ds ∧ r = r' := by
  induction cs generalizing atStart ds with
  | nil =>
    obtain rfl : atStart = true := hcs
    cases ds with
    | nil => exact ⟨rfl, heq⟩
    | cons d ds =>
      rw [show r = _ from heq] at hr
      exact absurd hr (not_ends_indented indent d ds r')
  | cons c cs ih =>
    cases ds with
    | nil =>
      obtain rfl : atStart = true := hds
      rw [← show _ = r' from heq] at hr'
      exact absurd hr' (not_ends_indented indent c cs r)
    | cons d ds =>
      have hbreak : isBreak c = isBreak d := by
        rw [← startsWith_isBreak_indented indent atStart c cs r, heq, startsWith_isBreak_indented]
      rw [endsLine_cons] at hcs hds
      rw [indented_cons, indented_cons, hbreak, List.append_assoc, List.append_assoc] at heq
      obtain ⟨rfl, hrest⟩ := List.cons.inj (List.append_cancel_left heq)
      obtain ⟨rfl, hr⟩ := ih hcs hds hrest
      exact ⟨rfl, hr⟩

end EnvSpec.Yaml
