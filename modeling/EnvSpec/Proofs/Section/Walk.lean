import EnvSpec.Proofs.Traversal
import EnvSpec.Section.Leaf

/-!
# Where a walk ends

A walk decides at every step whether it may go on, by looking at the table it is in and at the one
it would enter. The statements here do without that order of checks. A walk arrives exactly if the
keys lead to a leaf and no table above it is one, the root included. Otherwise it stops at the first
segment that blocks it, and `BlockedAt` says of each segment, on its own, what blocks there.
-/
namespace EnvSpec

namespace TableOf

theorem get?_of_isEmpty {t : Table} (h : t.isEmpty = true) (key : String) : t.get? key = none := by
  have he : t.entries = [] := List.isEmpty_iff.mp h
  rw [get?, he, Entries.get?_nil]

theorem get?_cases (t : Table) (key : String) :
    t.get? key = none ∨ (∃ node, t.get? key = some node ∧ node.asTable? = none) ∨
      ∃ next, t.get? key = some (.table next) := by
  cases h : t.get? key with
  | none => exact Or.inl rfl
  | some node =>
    cases node with
    | table next => exact Or.inr (Or.inr ⟨next, rfl⟩)
    | string _ | other _ => exact Or.inr (Or.inl ⟨_, rfl, rfl⟩)

/-- Further keys are looked up in a table under the first. -/
theorem descend?_cons_eq_some_iff {t : Table} {key : String} {rest : List String} (hr : rest ≠ [])
    {node : Node} : t.descend? (key :: rest) = some node ↔
      ∃ next, t.get? key = some (.table next) ∧ next.descend? rest = some node := by
  constructor
  · intro h
    rcases t.get?_cases key with hg | ⟨found, hg, hfound⟩ | ⟨next, hg⟩
    · rw [descend?_cons_of_none hg] at h
      cases h
    · rw [descend?_cons_of_scalar hg hfound hr] at h
      cases h
    · rw [descend?_cons_of_table hg] at h
      exact ⟨next, hg, h⟩
  · rintro ⟨next, hg, h⟩
    rw [descend?_cons_of_table hg, h]

/-- A table that stands directly in a leaf describes one dependency. -/
theorem isDependency_of_get? {t next : Table} {key : String} (ht : t.isLeaf = true)
    (h : t.get? key = some (.table next)) : next.isDependency = true :=
  List.all_eq_true.mp ht _ (Entries.mem_of_get? h)

theorem isLeaf_of_isDependency {t : Table} (h : t.isDependency = true) : t.isLeaf = true := by
  simp only [isDependency, Bool.and_eq_true, List.all_eq_true] at h
  refine List.all_eq_true.mpr fun e he => ?_
  obtain ⟨-, hs⟩ := h.2 e he
  obtain ⟨_, node⟩ := e
  cases node with
  | string _ => rfl
  | table _ | other _ => cases hs

theorem passThrough_of_none {t : Table} {key : String} (h : t.get? key = none) :
    t.passThrough key = .error .missing := by
  simp [passThrough, h]

theorem passThrough_of_scalar {t : Table} {key : String} {node : Node} (h : t.get? key = some node)
    (hn : node.asTable? = none) : t.passThrough key = .error (.found node.kind) := by
  cases node with
  | table _ => cases hn
  | string _ | other _ => simp [passThrough, h]

/-- Inside a leaf every table is a dependency, so only the leaf itself has to be looked at. -/
theorem passThrough_of_table {t next : Table} {key : String}
    (h : t.get? key = some (.table next)) :
    t.passThrough key =
      if t.isLeaf then .error (.found .entry)
      else if next.isLeaf && !next.isEmpty then .error (.found .leaf)
      else .ok next := by
  cases ht : t.isLeaf with
  | true => simp [passThrough, h, ht, isDependency_of_get? ht h]
  | false => simp [passThrough, h, ht]

theorem arrive_of_none {t : Table} {key : String} (h : t.get? key = none) :
    t.arrive key = .error .missing := by
  simp [arrive, h]

theorem arrive_of_scalar {t : Table} {key : String} {node : Node} (h : t.get? key = some node)
    (hn : node.asTable? = none) : t.arrive key = .error (.found node.kind) := by
  cases node with
  | table _ => cases hn
  | string _ | other _ => simp [arrive, h]

theorem arrive_of_table {t next : Table} {key : String} (h : t.get? key = some (.table next)) :
    t.arrive key =
      if t.isLeaf then .error (.found .entry)
      else if next.isLeaf then .ok next
      else .error (.found .section) := by
  cases ht : t.isLeaf with
  | true => simp [arrive, h, ht, isDependency_of_get? ht h]
  | false => simp [arrive, h, ht]

theorem passThrough_eq_ok_iff {t next : Table} {key : String} :
    t.passThrough key = .ok next ↔
      t.isLeaf = false ∧ t.get? key = some (.table next) ∧
        (next.isLeaf = true → next.isEmpty = true) := by
  rcases t.get?_cases key with h | ⟨node, h, hn⟩ | ⟨found, h⟩
  · simp [passThrough_of_none h, h]
  · rw [passThrough_of_scalar h hn, h]
    constructor
    · intro he
      cases he
    · rintro ⟨-, he, -⟩
      obtain rfl := Option.some.inj he
      cases hn
  · rw [passThrough_of_table h, h]
    constructor
    · intro hp
      split at hp
      · cases hp
      · next ht =>
        split at hp
        · cases hp
        · next hl =>
          obtain rfl := Except.ok.inj hp
          exact ⟨by simpa using ht, rfl, by simpa using hl⟩
    · rintro ⟨ht, he, hl⟩
      obtain rfl := Node.table.inj (Option.some.inj he)
      simpa [ht] using hl

theorem arrive_eq_ok_iff {t leaf : Table} {key : String} :
    t.arrive key = .ok leaf ↔
      t.isLeaf = false ∧ t.get? key = some (.table leaf) ∧ leaf.isLeaf = true := by
  rcases t.get?_cases key with h | ⟨node, h, hn⟩ | ⟨found, h⟩
  · simp [arrive_of_none h, h]
  · rw [arrive_of_scalar h hn, h]
    constructor
    · intro he
      cases he
    · rintro ⟨-, he, -⟩
      obtain rfl := Option.some.inj he
      cases hn
  · rw [arrive_of_table h, h]
    constructor
    · intro hp
      split at hp
      · cases hp
      · next ht =>
        split at hp
        · next hl =>
          obtain rfl := Except.ok.inj hp
          exact ⟨by simpa using ht, rfl, hl⟩
        · cases hp
    · rintro ⟨ht, he, hl⟩
      obtain rfl := Node.table.inj (Option.some.inj he)
      simp [ht, hl]

/-- The keys of `path` lead from a table to a leaf, and every table before the leaf is none. -/
inductive Leads : Table → List String → Table → Prop where
  | direct {t leaf : Table} {key : String} (above : t.isLeaf = false)
      (found : t.get? key = some (.table leaf)) (isLeaf : leaf.isLeaf = true) : Leads t [key] leaf
  | through {t next leaf : Table} {key : String} {rest : List String} (above : t.isLeaf = false)
      (found : t.get? key = some (.table next)) (leads : Leads next rest leaf) :
      Leads t (key :: rest) leaf

theorem Leads.path_ne_nil {t leaf : Table} {path : List String} (h : Leads t path leaf) :
    path ≠ [] := by
  cases h <;> exact List.cons_ne_nil _ _

theorem Leads.not_isLeaf {t leaf : Table} {path : List String} (h : Leads t path leaf) :
    t.isLeaf = false := by
  cases h <;> assumption

theorem Leads.isLeaf {t leaf : Table} {path : List String} (h : Leads t path leaf) :
    leaf.isLeaf = true := by
  induction h with
  | direct _ _ hl => exact hl
  | through _ _ _ ih => exact ih

theorem walk_cons_of_error {t : Table} {key : String} {rest : List String} (hr : rest ≠ [])
    {obstacle : Obstacle} (h : t.passThrough key = .error obstacle) :
    t.walk (key :: rest) = .error (key, obstacle) := by
  cases rest with
  | nil => exact absurd rfl hr
  | cons _ _ =>
    rw [walk, h]
    · rfl
    · exact hr

theorem walk_cons_of_ok {t next : Table} {key : String} {rest : List String} (hr : rest ≠ [])
    (h : t.passThrough key = .ok next) : t.walk (key :: rest) = next.walk rest := by
  cases rest with
  | nil => exact absurd rfl hr
  | cons _ _ =>
    rw [walk, h]
    · rfl
    · exact hr

theorem walk_singleton_eq_ok_iff {t leaf : Table} {key : String} :
    t.walk [key] = .ok leaf ↔ t.arrive key = .ok leaf := by
  rw [walk, mapError_eq_ok_iff]

theorem walk_singleton_eq_error_iff {t : Table} {head key : String} {obstacle : Obstacle} :
    t.walk [head] = .error (key, obstacle) ↔ head = key ∧ t.arrive head = .error obstacle := by
  rw [walk]
  cases t.arrive head with
  | error found =>
    show Except.error (head, found) = Except.error (key, obstacle) ↔ _
    rw [Except.error.injEq, Except.error.injEq, Prod.mk.injEq]
  | ok _ => exact ⟨nofun, nofun⟩

theorem walk_eq_ok_iff {t leaf : Table} {path : List String} (hp : path ≠ []) :
    t.walk path = .ok leaf ↔ Leads t path leaf := by
  induction path generalizing t with
  | nil => exact absurd rfl hp
  | cons key rest ih =>
    by_cases hr : rest = []
    · subst hr
      rw [walk_singleton_eq_ok_iff, arrive_eq_ok_iff]
      constructor
      · rintro ⟨ht, hg, hl⟩
        exact .direct ht hg hl
      · intro h
        cases h with
        | direct ht hg hl => exact ⟨ht, hg, hl⟩
        | through _ _ h => exact absurd rfl h.path_ne_nil
    · constructor
      · intro hwalk
        cases hpass : t.passThrough key with
        | error obstacle =>
          rw [walk_cons_of_error hr hpass] at hwalk
          cases hwalk
        | ok next =>
          rw [walk_cons_of_ok hr hpass] at hwalk
          obtain ⟨ht, hg, -⟩ := passThrough_eq_ok_iff.mp hpass
          exact .through ht hg ((ih hr).mp hwalk)
      · intro h
        cases h with
        | direct _ _ _ => exact absurd rfl hr
        | @through _ next _ _ _ ht hg h =>
          have hpass : t.passThrough key = .ok next := by
            refine passThrough_eq_ok_iff.mpr ⟨ht, hg, fun hl => ?_⟩
            rw [h.not_isLeaf] at hl
            cases hl
          rw [walk_cons_of_ok hr hpass]
          exact (ih hr).mpr h

/-- No table before the end of `path` is a leaf, the starting one included. -/
def NoLeafAbove (t : Table) (path : List String) : Prop :=
  ∀ k < path.length, ∀ above, t.descend? (path.take k) = some (.table above) → above.isLeaf = false

theorem noLeafAbove_cons {t next : Table} {key : String} {rest : List String}
    (h : t.get? key = some (.table next)) :
    t.NoLeafAbove (key :: rest) ↔ t.isLeaf = false ∧ next.NoLeafAbove rest := by
  constructor
  · intro hn
    refine ⟨hn 0 (Nat.succ_pos _) t rfl, fun k hk above hr => ?_⟩
    exact hn (k + 1) (Nat.succ_lt_succ hk) above (by rwa [List.take_succ_cons, descend?_cons_of_table h])
  · rintro ⟨ht, hn⟩ k hk above hr
    cases k with
    | zero =>
      obtain rfl := Node.table.inj (Option.some.inj hr)
      exact ht
    | succ k =>
      rw [List.take_succ_cons, descend?_cons_of_table h] at hr
      exact hn k (Nat.lt_of_succ_lt_succ hk) above hr

theorem leads_iff {t leaf : Table} {path : List String} (hp : path ≠ []) :
    Leads t path leaf ↔
      t.descend? path = some (.table leaf) ∧ leaf.isLeaf = true ∧ t.NoLeafAbove path := by
  constructor
  · intro h
    induction h with
    | direct ht hg hl =>
      refine ⟨hg, hl, (noLeafAbove_cons hg).mpr ⟨ht, ?_⟩⟩
      exact fun k hk => absurd hk (Nat.not_lt_zero k)
    | through ht hg h ih =>
      obtain ⟨hr, hl, hn⟩ := ih h.path_ne_nil
      exact ⟨by rw [descend?_cons_of_table hg, hr], hl, (noLeafAbove_cons hg).mpr ⟨ht, hn⟩⟩
  · rintro ⟨hr, hl, hn⟩
    induction path generalizing t with
    | nil => exact absurd rfl hp
    | cons key rest ih =>
      by_cases hrest : rest = []
      · subst hrest
        exact .direct (hn 0 (Nat.succ_pos _) t rfl) hr hl
      · obtain ⟨next, h, hr⟩ := (descend?_cons_eq_some_iff hrest).mp hr
        obtain ⟨ht, hn⟩ := (noLeafAbove_cons h).mp hn
        exact .through ht h (ih hrest hr hn)

/-- What blocks a walk along `path` at its segment number `k`, counted from zero, whatever blocks it
elsewhere. A dependency is told from a leaf only directly below the root: deeper ones stand in a
leaf that blocks before. -/
inductive BlockedAt (root : Table) (path : List String) (k : Nat) : Obstacle → Prop where
  | missing {t : Table} {key : String} (segment : path[k]? = some key)
      (reached : root.descend? (path.take k) = some (.table t)) (absent : t.get? key = none) :
      BlockedAt root path k .missing
  | scalar {node : Node} (inside : k < path.length)
      (reached : root.descend? (path.take (k + 1)) = some node) (noTable : node.asTable? = none) :
      BlockedAt root path k (.found node.kind)
  | entry {t : Table} (inside : k < path.length) (first : k = 0) (flat : root.isLeaf = true)
      (reached : root.descend? (path.take (k + 1)) = some (.table t))
      (dependency : t.isDependency = true) : BlockedAt root path k (.found .entry)
  | leaf {t : Table} (early : k + 1 < path.length)
      (reached : root.descend? (path.take (k + 1)) = some (.table t)) (isLeaf : t.isLeaf = true)
      (nonempty : t.isEmpty = false)
      (noEntry : ¬(k = 0 ∧ root.isLeaf = true ∧ t.isDependency = true)) :
      BlockedAt root path k (.found .leaf)
  | nested {t : Table} (last : k + 1 = path.length)
      (reached : root.descend? (path.take (k + 1)) = some (.table t)) (noLeaf : t.isLeaf = false) :
      BlockedAt root path k (.found .section)

/-- The first segment of `path` at which a walk is blocked. -/
def FirstBlock (root : Table) (path : List String) (k : Nat) (obstacle : Obstacle) : Prop :=
  BlockedAt root path k obstacle ∧ ∀ j < k, ∀ earlier, ¬BlockedAt root path j earlier

theorem BlockedAt.lt_length {root : Table} {path : List String} {k : Nat} {obstacle : Obstacle}
    (h : BlockedAt root path k obstacle) : k < path.length := by
  cases h with
  | missing hs _ _ => exact (List.getElem?_eq_some_iff.mp hs).1
  | scalar hk _ _ | entry hk _ _ _ _ => exact hk
  | leaf hk _ _ _ _ => exact Nat.lt_of_succ_lt hk
  | nested hk _ _ => exact Nat.lt_of_succ_le (Nat.le_of_eq hk)

/-- Before the last segment, what blocks at the first one is what the step there reports. -/
theorem blockedAt_zero_iff {t : Table} {key : String} {rest : List String} (hr : rest ≠ [])
    {obstacle : Obstacle} :
    BlockedAt t (key :: rest) 0 obstacle ↔ t.passThrough key = .error obstacle := by
  have hlen : 0 + 1 < (key :: rest).length := Nat.succ_lt_succ (List.length_pos_iff.mpr hr)
  constructor
  · intro h
    cases h with
    | missing hs hreach habsent =>
      obtain rfl := Option.some.inj hs
      obtain rfl := Node.table.inj (Option.some.inj hreach)
      exact passThrough_of_none habsent
    | scalar _ hreach hn => exact passThrough_of_scalar hreach hn
    | entry _ _ hflat hreach _ => simp [passThrough_of_table hreach, hflat]
    | leaf _ hreach hl he hne =>
      have ht : t.isLeaf = false := by
        cases ht : t.isLeaf with
        | false => rfl
        | true => exact absurd ⟨rfl, ht, isDependency_of_get? ht hreach⟩ hne
      simp [passThrough_of_table hreach, ht, hl, he]
    | nested hlast _ _ => exact absurd hlast (Nat.ne_of_lt hlen)
  · intro h
    rcases t.get?_cases key with hg | ⟨node, hg, hn⟩ | ⟨next, hg⟩
    · rw [passThrough_of_none hg] at h
      cases h
      exact .missing rfl rfl hg
    · rw [passThrough_of_scalar hg hn] at h
      cases h
      exact .scalar (Nat.succ_pos _) hg hn
    · rw [passThrough_of_table hg] at h
      split at h
      · next ht =>
        cases h
        exact .entry (Nat.succ_pos _) rfl ht hg (isDependency_of_get? ht hg)
      · next ht =>
        split at h
        · next hl =>
          cases h
          simp only [Bool.and_eq_true, Bool.not_eq_true'] at hl
          exact .leaf hlen hg hl.1 hl.2 fun hf => ht hf.2.1
        · cases h

theorem blockedAt_singleton_iff {t : Table} {key : String} {k : Nat} {obstacle : Obstacle} :
    BlockedAt t [key] k obstacle ↔ k = 0 ∧ t.arrive key = .error obstacle := by
  constructor
  · intro h
    obtain rfl : k = 0 := Nat.lt_one_iff.mp h.lt_length
    refine ⟨rfl, ?_⟩
    cases h with
    | missing hs hreach habsent =>
      obtain rfl := Option.some.inj hs
      obtain rfl := Node.table.inj (Option.some.inj hreach)
      exact arrive_of_none habsent
    | scalar _ hreach hn => exact arrive_of_scalar hreach hn
    | entry _ _ hflat hreach _ => simp [arrive_of_table hreach, hflat]
    | leaf hearly _ _ _ _ => exact absurd hearly (Nat.lt_irrefl _)
    | nested _ hreach hl =>
      have ht : t.isLeaf = false := by
        cases ht : t.isLeaf with
        | false => rfl
        | true =>
          rw [isLeaf_of_isDependency (isDependency_of_get? ht hreach)] at hl
          cases hl
      simp [arrive_of_table hreach, ht, hl]
  · rintro ⟨rfl, h⟩
    rcases t.get?_cases key with hg | ⟨node, hg, hn⟩ | ⟨next, hg⟩
    · rw [arrive_of_none hg] at h
      cases h
      exact .missing rfl rfl hg
    · rw [arrive_of_scalar hg hn] at h
      cases h
      exact .scalar Nat.one_pos hg hn
    · rw [arrive_of_table hg] at h
      split at h
      · next ht =>
        cases h
        exact .entry Nat.one_pos rfl ht hg (isDependency_of_get? ht hg)
      · split at h
        · cases h
        · next hl =>
          cases h
          exact .nested rfl hg (by simpa using hl)

/-- Past a table that could be entered, a walk is blocked as if it had started there: a leaf is
entered only if it is empty, and then nothing is found in it. -/
theorem blockedAt_succ_iff {t next : Table} {key : String} {rest : List String}
    (hpass : t.passThrough key = .ok next) {k : Nat} {obstacle : Obstacle} :
    BlockedAt t (key :: rest) (k + 1) obstacle ↔ BlockedAt next rest k obstacle := by
  obtain ⟨ht, hg, hempty⟩ := passThrough_eq_ok_iff.mp hpass
  have hreach (j : Nat) : t.descend? ((key :: rest).take (j + 1)) = next.descend? (rest.take j) := by
    rw [List.take_succ_cons, descend?_cons_of_table hg]
  have hnothing (hl : next.isLeaf = true) (hk : k < rest.length) :
      next.descend? (rest.take (k + 1)) = none := by
    cases rest with
    | nil => cases hk
    | cons _ _ =>
      rw [List.take_succ_cons, descend?_cons_of_none (get?_of_isEmpty (hempty hl) _)]
  constructor
  · intro h
    cases h with
    | missing hs hr habsent => exact .missing hs (by rwa [hreach] at hr) habsent
    | scalar hk hr hn => exact .scalar (Nat.lt_of_succ_lt_succ hk) (by rwa [hreach] at hr) hn
    | entry _ hfirst _ _ _ => cases hfirst
    | leaf hearly hr hl he _ =>
      rw [hreach] at hr
      refine .leaf (Nat.lt_of_succ_lt_succ hearly) hr hl he ?_
      rintro ⟨-, hnext, -⟩
      rw [hnothing hnext (Nat.lt_of_succ_lt (Nat.lt_of_succ_lt_succ hearly))] at hr
      cases hr
    | nested hlast hr hl => exact .nested (Nat.succ.inj hlast) (by rwa [hreach] at hr) hl
  · intro h
    cases h with
    | missing hs hr habsent => exact .missing hs (by rwa [hreach]) habsent
    | scalar hk hr hn => exact .scalar (Nat.succ_lt_succ hk) (by rwa [hreach]) hn
    | entry hk _ hflat hr _ =>
      rw [hnothing hflat hk] at hr
      cases hr
    | leaf hearly hr hl he _ =>
      exact .leaf (Nat.succ_lt_succ hearly) (by rwa [hreach]) hl he fun hf => by cases hf.1
    | nested hlast hr hl => exact .nested (congrArg Nat.succ hlast) (by rwa [hreach]) hl

theorem walk_eq_error_iff {t : Table} {path : List String} (hp : path ≠ []) {key : String}
    {obstacle : Obstacle} :
    t.walk path = .error (key, obstacle) ↔
      ∃ k, path[k]? = some key ∧ FirstBlock t path k obstacle := by
  induction path generalizing t with
  | nil => exact absurd rfl hp
  | cons head rest ih =>
    by_cases hr : rest = []
    · subst hr
      rw [walk_singleton_eq_error_iff]
      constructor
      · rintro ⟨rfl, h⟩
        exact ⟨0, rfl, blockedAt_singleton_iff.mpr ⟨rfl, h⟩, fun j hj => absurd hj (Nat.not_lt_zero j)⟩
      · rintro ⟨k, hk, hb, -⟩
        obtain ⟨rfl, h⟩ := blockedAt_singleton_iff.mp hb
        exact ⟨Option.some.inj hk, h⟩
    · cases hpass : t.passThrough head with
      | error found =>
        rw [walk_cons_of_error hr hpass, Except.error.injEq, Prod.mk.injEq]
        have hzero := (blockedAt_zero_iff hr).mpr hpass
        constructor
        · rintro ⟨rfl, rfl⟩
          exact ⟨0, rfl, hzero, fun j hj => absurd hj (Nat.not_lt_zero j)⟩
        · rintro ⟨k, hk, hb, hfirst⟩
          cases k with
          | zero =>
            rw [blockedAt_zero_iff hr, hpass] at hb
            exact ⟨Option.some.inj hk, Except.error.inj hb⟩
          | succ k => exact absurd hzero (hfirst 0 (Nat.succ_pos k) found)
      | ok next =>
        rw [walk_cons_of_ok hr hpass, ih hr]
        have hzero (earlier : Obstacle) : ¬BlockedAt t (head :: rest) 0 earlier := by
          rw [blockedAt_zero_iff hr, hpass]
          exact fun h => by cases h
        constructor
        · rintro ⟨k, hk, hb, hfirst⟩
          refine ⟨k + 1, hk, (blockedAt_succ_iff hpass).mpr hb, fun j hj => ?_⟩
          cases j with
          | zero => exact hzero
          | succ j =>
            intro earlier he
            exact hfirst j (Nat.lt_of_succ_lt_succ hj) earlier ((blockedAt_succ_iff hpass).mp he)
        · rintro ⟨k, hk, hb, hfirst⟩
          cases k with
          | zero => exact absurd hb (hzero obstacle)
          | succ k =>
            refine ⟨k, hk, (blockedAt_succ_iff hpass).mp hb, fun j hj earlier he => ?_⟩
            exact hfirst (j + 1) (Nat.succ_lt_succ hj) earlier ((blockedAt_succ_iff hpass).mpr he)

end TableOf

/-- What is said of a walk along the section path `path` that an obstacle stopped at `segment`. -/
def Obstacle.error (path segment : String) : Obstacle → ManifestError
  | .missing => .missingKey path segment
  | .found kind => .noDependencies path segment kind

namespace Manifest

theorem leafAt_eq_walk (m : Manifest) (path : SectionPath) :
    m.leafAt path =
      (m.root.walk path.segments).mapError fun stop => stop.2.error path.text stop.1 := by
  unfold leafAt
  cases h : m.root.walk path.segments with
  | ok leaf => rfl
  | error stop =>
    obtain ⟨segment, obstacle⟩ := stop
    cases obstacle <;> rfl

theorem leafAt_eq_ok_iff {m : Manifest} {path : SectionPath} {leaf : Table} :
    m.leafAt path = .ok leaf ↔ TableOf.Leads m.root path.segments leaf := by
  rw [leafAt_eq_walk, mapError_eq_ok_iff, TableOf.walk_eq_ok_iff path.segments_ne_nil]

/-- A section path resolves exactly to the leaf that its keys lead to below tables that are no
leaves. Otherwise the error names the first segment that is blocked and what blocks it. -/
theorem leafAt_exact (m : Manifest) (path : SectionPath) :
    (∀ leaf, m.leafAt path = .ok leaf ↔
      m.root.descend? path.segments = some (.table leaf) ∧ leaf.isLeaf = true ∧
        m.root.NoLeafAbove path.segments) ∧
    ∀ error, m.leafAt path = .error error ↔
      ∃ k segment obstacle, path.segments[k]? = some segment ∧
        TableOf.FirstBlock m.root path.segments k obstacle ∧
        error = obstacle.error path.text segment := by
  have hp := path.segments_ne_nil
  constructor
  · intro leaf
    exact leafAt_eq_ok_iff.trans (TableOf.leads_iff hp)
  · intro error
    rw [leafAt_eq_walk]
    constructor
    · intro h
      cases hw : m.root.walk path.segments with
      | ok leaf =>
        rw [hw] at h
        cases h
      | error stop =>
        obtain ⟨segment, obstacle⟩ := stop
        obtain ⟨k, hk, hfirst⟩ := (TableOf.walk_eq_error_iff hp).mp hw
        refine ⟨k, segment, obstacle, hk, hfirst, ?_⟩
        rw [hw] at h
        exact (Except.error.inj h).symm
    · rintro ⟨k, segment, obstacle, hk, hfirst, rfl⟩
      rw [(TableOf.walk_eq_error_iff hp).mpr ⟨k, hk, hfirst⟩]
      rfl

end Manifest

end EnvSpec
