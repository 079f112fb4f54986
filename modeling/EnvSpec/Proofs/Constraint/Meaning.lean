import EnvSpec.Constraint.Basic
import EnvSpec.Proofs.Version.Release

/-!
# The meaning of constraints

A constraint on release numbers is met by some releases and not by others. A release number with
fewer than three components stands for the release with zeros in their place. How many components
were written still matters to the caret and the tilde.
-/
namespace EnvSpec

structure Release where
  major : Nat
  minor : Nat
  patch : Nat
deriving Repr, DecidableEq

namespace Release

def components (w : Release) : List Nat := [w.major, w.minor, w.patch]

/-- Components that are not written are zero. -/
def ofComponents (written : List Nat) : Release :=
  ⟨written.getD 0 0, written.getD 1 0, written.getD 2 0⟩

/-- The order of releases, the major component first. -/
instance : LT Release where
  lt v w := v.major < w.major ∨
    v.major = w.major ∧ (v.minor < w.minor ∨ v.minor = w.minor ∧ v.patch < w.patch)

instance : LE Release where
  le v w := v < w ∨ v = w

/-- The components at the places up to `k` are the same. -/
def AgreeUpTo (k : Nat) (v w : Release) : Prop :=
  v.components.take (k + 1) = w.components.take (k + 1)

theorem lt_iff {v w : Release} : v < w ↔ v.major < w.major ∨
    v.major = w.major ∧ (v.minor < w.minor ∨ v.minor = w.minor ∧ v.patch < w.patch) := Iff.rfl

theorem le_iff {v w : Release} : v ≤ w ↔ v < w ∨ v = w := Iff.rfl

/-- The releases below the one with component `k` raised are those that agree up to there. -/
theorem lt_raised_iff {written : List Nat} (hlen : written.length ≤ 3) {k : Nat}
    (hk : k < written.length) {w : Release} (hle : ofComponents written ≤ w) :
    w < ofComponents (Version.raised written k) ↔ AgreeUpTo k (ofComponents written) w := by
  obtain ⟨major, minor, patch⟩ := w
  simp only [le_iff, lt_iff, AgreeUpTo, ofComponents, Version.raised, components,
    Release.mk.injEq] at hle ⊢
  -- One case for each number of written components and each place among them.
  rcases written with _ | ⟨a, _ | ⟨b, _ | ⟨c, _ | ⟨d, rest⟩⟩⟩⟩
  · exact absurd hk (Nat.not_lt_zero k)
  · obtain rfl : k = 0 := Nat.lt_one_iff.mp hk
    simp at hle ⊢
    omega
  · have hplace : k = 0 ∨ k = 1 := by
      simp only [List.length_cons, List.length_nil] at hk
      omega
    rcases hplace with rfl | rfl <;> simp at hle ⊢ <;> omega
  · have hplace : k = 0 ∨ k = 1 ∨ k = 2 := by
      simp only [List.length_cons, List.length_nil] at hk
      omega
    rcases hplace with rfl | rfl | rfl <;> simp at hle ⊢ <;> omega
  · simp only [List.length_cons] at hlen
    omega

end Release

/-- The place up to which a caret or a tilde keeps the components: for the caret the leftmost one
that is not zero, for the tilde the minor one if it is written. -/
def Operator.Keeps (op : Operator) (written : List Nat) (k : Nat) : Prop :=
  match op with
  | .caret => Version.IsPivot written k
  | .tilde => k = if 2 ≤ written.length then 1 else 0
  | _ => False

/-- The releases that an operator admits for a written release number. -/
def Operator.Admits (op : Operator) (written : List Nat) (w : Release) : Prop :=
  let v := Release.ofComponents written
  match op with
  | .caret | .tilde => v ≤ w ∧ ∃ k, op.Keeps written k ∧ Release.AgreeUpTo k v w
  | .compatible => v ≤ w ∧ ∀ k, k + 1 < written.length → Release.AgreeUpTo k v w
  | .exact | .equal | .bare => w = v
  | .notEqual => w ≠ v
  | .greaterEq => v ≤ w
  | .lessEq => w ≤ v
  | .greater => v < w
  | .less => w < v

/-- A clause on a release number admits what its operator does. -/
def Clause.Admits (c : Clause) (w : Release) : Prop :=
  ∃ written, Version.Writes c.version written ∧ c.operator.Admits written w

/-- A constraint admits what all its clauses do. -/
def Constraint.Admits (c : Constraint) (w : Release) : Prop := ∀ clause ∈ c.clauses, clause.Admits w

end EnvSpec
