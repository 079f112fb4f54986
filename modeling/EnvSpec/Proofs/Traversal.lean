import Mathlib.Data.List.Forall2

/-!
# Steps that can fail

What is read from a manifest is read by steps that give an error or go on. An error can be reworded
on its way out, and a list is read member by member up to the first error.
-/
namespace EnvSpec

variable {α β ε ε' : Type}

/-- Rewording an error leaves the results as they are. -/
theorem mapError_eq_ok_iff {e : Except ε α} {f : ε → ε'} {a : α} :
    e.mapError f = .ok a ↔ e = .ok a := by
  cases e with
  | error _ => exact ⟨nofun, nofun⟩
  | ok b =>
    show Except.ok b = Except.ok a ↔ _
    rw [Except.ok.injEq, Except.ok.injEq]

/-- Rewording an error rewords the one that there is. -/
theorem mapError_eq_error_iff {e : Except ε α} {f : ε → ε'} {x' : ε'} :
    e.mapError f = .error x' ↔ ∃ x, e = .error x ∧ x' = f x := by
  cases e with
  | ok _ =>
    constructor
    · intro h
      cases h
    · rintro ⟨_, h, -⟩
      cases h
  | error x =>
    show Except.error (f x) = Except.error x' ↔ _
    constructor
    · intro h
      exact ⟨x, rfl, (Except.error.inj h).symm⟩
    · rintro ⟨_, h, rfl⟩
      obtain rfl := Except.error.inj h
      rfl

section Traversal
variable {f : α → Except ε β}

/-- A reading step that succeeds goes on to the rest. -/
theorem mapM_cons_of_ok {x : α} {y : β} (h : f x = .ok y) (xs : List α) :
    (x :: xs).mapM f = (xs.mapM f).map (y :: ·) := by
  rw [List.mapM_cons, h]
  cases xs.mapM f <;> rfl

theorem mapM_cons_of_error {x : α} {e : ε} (h : f x = .error e) (xs : List α) :
    (x :: xs).mapM f = .error e := by
  rw [List.mapM_cons, h]
  rfl

theorem mapM_eq_ok_iff {xs : List α} {ys : List β} :
    xs.mapM f = .ok ys ↔ List.Forall₂ (fun x y => f x = .ok y) xs ys := by
  induction xs generalizing ys with
  | nil =>
    rw [List.mapM_nil, List.forall₂_nil_left_iff]
    show Except.ok [] = Except.ok ys ↔ _
    rw [Except.ok.injEq, eq_comm]
  | cons x xs ih =>
    rw [List.forall₂_cons_left_iff]
    cases hx : f x with
    | error e =>
      rw [mapM_cons_of_error hx]
      constructor
      · intro h
        cases h
      · rintro ⟨y, _, hy, -⟩
        cases hy
    | ok y =>
      rw [mapM_cons_of_ok hx]
      constructor
      · intro h
        cases hrest : xs.mapM f with
        | error e =>
          rw [hrest] at h
          cases h
        | ok rest =>
          rw [hrest] at h
          exact ⟨y, rest, rfl, ih.mp hrest, (Except.ok.inj h).symm⟩
      · rintro ⟨y', rest, hy, hrest, rfl⟩
        obtain rfl := Except.ok.inj hy
        rw [ih.mpr hrest]
        rfl

theorem exists_mapM_eq_ok_iff {xs : List α} :
    (∃ ys, xs.mapM f = .ok ys) ↔ ∀ x ∈ xs, ∃ y, f x = .ok y := by
  simp only [mapM_eq_ok_iff]
  induction xs with
  | nil => exact ⟨fun _ _ hx => absurd hx List.not_mem_nil, fun _ => ⟨[], .nil⟩⟩
  | cons x xs ih =>
    rw [List.forall_mem_cons, ← ih]
    constructor
    · rintro ⟨_, hall⟩
      obtain ⟨y, ys, hy, hys, rfl⟩ := List.forall₂_cons_left_iff.mp hall
      exact ⟨⟨y, hy⟩, ys, hys⟩
    · rintro ⟨⟨y, hy⟩, ys, hys⟩
      exact ⟨y :: ys, .cons hy hys⟩

theorem exists_mem_of_forall₂ {R : α → β → Prop} {xs : List α} {ys : List β}
    (h : List.Forall₂ R xs ys) : ∀ y ∈ ys, ∃ x ∈ xs, R x y := by
  induction h with
  | nil => exact fun y hy => absurd hy List.not_mem_nil
  | @cons x _ _ _ hxy _ ih =>
    refine List.forall_mem_cons.mpr ⟨⟨x, List.mem_cons_self, hxy⟩, fun y hy => ?_⟩
    obtain ⟨x', hx', hy'⟩ := ih y hy
    exact ⟨x', List.mem_cons_of_mem _ hx', hy'⟩

/-- The first member that cannot be read gives the error. -/
theorem mapM_eq_error_iff {xs : List α} {e : ε} :
    xs.mapM f = .error e ↔ ∃ before x after, xs = before ++ x :: after ∧
      (∀ b ∈ before, ∃ y, f b = .ok y) ∧ f x = .error e := by
  induction xs with
  | nil =>
    constructor
    · intro h
      cases h
    · rintro ⟨before, x, after, h, -⟩
      exact absurd h.symm (List.append_ne_nil_of_right_ne_nil _ (List.cons_ne_nil _ _))
  | cons x xs ih =>
    cases hx : f x with
    | error found =>
      rw [mapM_cons_of_error hx, Except.error.injEq]
      constructor
      · rintro rfl
        exact ⟨[], x, xs, rfl, fun b hb => absurd hb List.not_mem_nil, hx⟩
      · rintro ⟨before, x', after, hsplit, hbefore, hx'⟩
        cases before with
        | nil =>
          obtain ⟨rfl, -⟩ := List.cons.inj hsplit
          exact Except.error.inj (hx.symm.trans hx')
        | cons b before =>
          obtain ⟨rfl, -⟩ := List.cons.inj hsplit
          obtain ⟨y, hy⟩ := hbefore x List.mem_cons_self
          cases hx.symm.trans hy
    | ok y =>
      have hrest : (x :: xs).mapM f = .error e ↔ xs.mapM f = .error e := by
        rw [mapM_cons_of_ok hx]
        cases xs.mapM f with
        | error found => exact Iff.rfl
        | ok rest => exact ⟨nofun, nofun⟩
      rw [hrest, ih]
      constructor
      · rintro ⟨before, x', after, rfl, hbefore, hx'⟩
        exact ⟨x :: before, x', after, rfl, List.forall_mem_cons.mpr ⟨⟨y, hx⟩, hbefore⟩, hx'⟩
      · rintro ⟨before, x', after, hsplit, hbefore, hx'⟩
        cases before with
        | nil =>
          obtain ⟨rfl, -⟩ := List.cons.inj hsplit
          cases hx.symm.trans hx'
        | cons b before =>
          obtain ⟨rfl, rfl⟩ := List.cons.inj hsplit
          exact ⟨before, x', after, rfl, (List.forall_mem_cons.mp hbefore).2, hx'⟩

end Traversal

end EnvSpec
