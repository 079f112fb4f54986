/-!
# Legible writings

Something written at the front of a text can be told from the text, and so can what follows it, if
nothing else leads to the same text. What may follow has a say in this: a writing that is not marked
at its end is legible only before texts that cannot continue it.
-/
namespace EnvSpec.Text

/-- No two things are written alike before texts of which `Follow` holds. -/
def Legible {α : Type} (write : α → List Char) (Follow : List Char → Prop) : Prop :=
  ∀ ⦃a b : α⦄ ⦃r r' : List Char⦄, Follow r → Follow r' → write a ++ r = write b ++ r' →
    a = b ∧ r = r'

/-- What is written behind a fixed text is as legible as without it. -/
theorem Legible.behind {α : Type} {write : α → List Char} {Follow : List Char → Prop}
    (h : Legible write Follow) (front : List Char) : Legible (fun a => front ++ write a) Follow := by
  intro a b r r' hr hr' heq
  rw [List.append_assoc, List.append_assoc] at heq
  exact h hr hr' (List.append_cancel_left heq)

/-- Things written one after the other are legible before texts that begin with none of them. -/
theorem Legible.flatMap {α : Type} {write : α → List Char} {Follow Stop : List Char → Prop}
    (h : Legible write Follow) (hgo : ∀ a r, Follow (write a ++ r)) (hstop : ∀ r, Stop r → Follow r)
    (happart : ∀ a r, ¬Stop (write a ++ r)) : Legible (List.flatMap write) Stop := by
  -- What follows the first thing is another one, or the text after all of them.
  have hfollow (as : List α) (r : List Char) (hr : Stop r) : Follow (as.flatMap write ++ r) := by
    cases as with
    | nil => exact hstop r hr
    | cons a as =>
      rw [List.flatMap_cons, List.append_assoc]
      exact hgo a _
  intro as bs r r' hr hr' heq
  induction as generalizing bs with
  | nil =>
    cases bs with
    | nil => exact ⟨rfl, heq⟩
    | cons b bs =>
      rw [List.flatMap_cons, List.append_assoc] at heq
      rw [show r = _ from heq] at hr
      exact absurd hr (happart b _)
  | cons a as ih =>
    rw [List.flatMap_cons, List.append_assoc] at heq
    cases bs with
    | nil =>
      rw [← show _ = r' from heq] at hr'
      exact absurd hr' (happart a _)
    | cons b bs =>
      rw [List.flatMap_cons, List.append_assoc] at heq
      obtain ⟨rfl, hrest⟩ := h (hfollow as r hr) (hfollow bs r' hr') heq
      obtain ⟨rfl, hr⟩ := ih hrest
      exact ⟨rfl, hr⟩

/-- A text is cut in one way only at the first occurrence of a character. -/
theorem append_cons_inj {c : Char} {before before' after after' : List Char} (hc : c ∉ before)
    (hc' : c ∉ before') (h : before ++ c :: after = before' ++ c :: after') :
    before = before' ∧ after = after' := by
  rcases List.append_eq_append_iff.mp h with ⟨more, rfl, hafter⟩ | ⟨more, rfl, hafter⟩
  · cases more with
    | nil => exact ⟨(List.append_nil _).symm, (List.cons.inj hafter).2⟩
    | cons d more =>
      obtain ⟨rfl, -⟩ := List.cons.inj hafter
      exact absurd (List.mem_append_right _ List.mem_cons_self) hc'
  · cases more with
    | nil => exact ⟨List.append_nil _, (List.cons.inj hafter).2.symm⟩
    | cons d more =>
      obtain ⟨rfl, -⟩ := List.cons.inj hafter
      exact absurd (List.mem_append_right _ List.mem_cons_self) hc

end EnvSpec.Text
