import Mathlib.Data.List.Forall2
import EnvSpec.Manifest.Parse
import EnvSpec.Proofs.Section.Extraction
import EnvSpec.Proofs.Section.Listing

/-!
# Braces matter only around dependencies

Whether a table was written between braces is remembered for every table, and one format writes all
of its tables so. It is asked only of a table that would describe one dependency. Two manifests that
agree there, and otherwise in all but braces, cannot be told apart: walks end in the same way,
sections hold the same records, and the same sections and strings are found. The relation is carried
through one function after the other, from the classification of one table outwards.
-/
namespace EnvSpec

section Corresponding
variable {α β γ δ ε : Type} {R : α → β → Prop} {xs : List α} {ys : List β}

theorem map_eq_of_forall₂ (h : List.Forall₂ R xs ys) {f : α → γ} {g : β → γ}
    (hfg : ∀ x ∈ xs, ∀ y, R x y → f x = g y) : xs.map f = ys.map g := by
  induction h with
  | nil => rfl
  | @cons x y xs _ hxy _ ih =>
    rw [List.map_cons, List.map_cons, hfg x List.mem_cons_self y hxy,
      ih fun x' hx' => hfg x' (List.mem_cons_of_mem _ hx')]

theorem forall_mem_iff_of_forall₂ (h : List.Forall₂ R xs ys) {p : α → Prop} {q : β → Prop}
    (hpq : ∀ x y, R x y → (p x ↔ q y)) : (∀ x ∈ xs, p x) ↔ ∀ y ∈ ys, q y := by
  induction h with
  | nil => exact iff_of_true (List.forall_mem_nil p) (List.forall_mem_nil q)
  | cons hxy _ ih => rw [List.forall_mem_cons, List.forall_mem_cons, hpq _ _ hxy, ih]

theorem forall₂_of_keys_of_values {S : β → γ → Prop} {es : List (α × β)} {fs : List (α × γ)}
    (hkeys : es.map Prod.fst = fs.map Prod.fst)
    (hvalues : List.Forall₂ S (es.map Prod.snd) (fs.map Prod.snd)) :
    List.Forall₂ (fun e f => e.1 = f.1 ∧ S e.2 f.2) es fs := by
  induction es generalizing fs with
  | nil =>
    obtain rfl := List.map_eq_nil_iff.mp hkeys.symm
    exact .nil
  | cons e es ih =>
    cases fs with
    | nil => cases hkeys
    | cons f fs =>
      obtain ⟨hkey, hkeys⟩ := List.cons.inj hkeys
      obtain ⟨hvalue, hvalues⟩ := List.forall₂_cons.mp hvalues
      exact .cons ⟨hkey, hvalue⟩ (ih hkeys hvalues)

/-- Under one key there are corresponding values, or none in either list. -/
theorem get?_rel_of_forall₂ [DecidableEq α] {S : β → γ → Prop} {es : Entries α β} {fs : Entries α γ}
    (h : List.Forall₂ (fun e f => e.1 = f.1 ∧ S e.2 f.2) es fs) (key : α) :
    Option.Rel S (es.get? key) (fs.get? key) := by
  induction h with
  | nil => exact .none
  | @cons e f _ _ hef _ ih =>
    obtain ⟨k, value⟩ := e
    obtain ⟨_, value'⟩ := f
    obtain ⟨rfl, hvalue⟩ := hef
    rw [Entries.get?_cons, Entries.get?_cons]
    by_cases hk : key = k
    · rw [if_pos hk, if_pos hk]
      exact .some hvalue
    · rw [if_neg hk, if_neg hk]
      exact ih

end Corresponding

/-- What a table between braces has to hold to describe one dependency. -/
def TableOf.EntryShaped (t : Table) : Prop :=
  t.entries ≠ [] ∧ ∀ e ∈ t.entries, e.1 ∈ entryKeys ∧ ∃ text, e.2 = .string text

/-- The trees have the same keys in the same order, the same strings and scalars of the same kinds,
and each table that could describe one dependency has braces in both or in neither. -/
inductive Node.Alike : Node → Node → Prop where
  | string (text : String) : Alike (.string text) (.string text)
  | other (kind : ScalarKind) : Alike (.other kind) (.other kind)
  | table {t u : Table} (keys : t.keys = u.keys)
      (nodes : List.Forall₂ Alike (t.entries.map Prod.snd) (u.entries.map Prod.snd))
      (braces : t.EntryShaped → t.inline = u.inline) : Alike (.table t) (.table u)

/-- Two tables that hold alike nodes under the same keys, whatever stands around them. -/
def TableOf.Alike (t u : Table) : Prop :=
  List.Forall₂ (fun e f => e.1 = f.1 ∧ e.2.Alike f.2) t.entries u.entries

theorem Node.alike_table_iff {t u : Table} :
    (Node.table t).Alike (.table u) ↔ t.Alike u ∧ (t.EntryShaped → t.inline = u.inline) := by
  constructor
  · intro h
    cases h with
    | table keys nodes braces => exact ⟨forall₂_of_keys_of_values keys nodes, braces⟩
  · rintro ⟨h, braces⟩
    refine .table ?_ ?_ braces
    · exact map_eq_of_forall₂ h fun _ _ _ hef => hef.1
    · rw [List.forall₂_map_left_iff, List.forall₂_map_right_iff]
      exact h.imp fun _ _ hef => hef.2

namespace TableOf

variable {t u : Table}

theorem isDependency_iff_entryShaped :
    t.isDependency = true ↔ t.inline = true ∧ t.EntryShaped :=
  isDependency_iff

namespace Alike

variable (h : t.Alike u)
include h

theorem isEmpty_eq : t.isEmpty = u.isEmpty := by
  rw [Bool.eq_iff_iff, isEmpty, isEmpty, List.isEmpty_iff, List.isEmpty_iff,
    ← List.length_eq_zero_iff, ← List.length_eq_zero_iff, h.length_eq]

theorem entryShaped_iff : t.EntryShaped ↔ u.EntryShaped := by
  unfold EntryShaped
  apply and_congr
  · rw [← List.length_pos_iff, ← List.length_pos_iff, h.length_eq]
  · apply forall_mem_iff_of_forall₂ h
    rintro ⟨key, node⟩ ⟨_, other⟩ ⟨rfl, hnode⟩
    cases hnode <;> simp

end Alike

end TableOf

/-- Alike nodes are classified alike. -/
theorem Node.Alike.isDependency_eq {node other : Node} (h : node.Alike other) :
    node.isDependency = other.isDependency := by
  cases h with
  | string _ => rfl
  | other _ => rfl
  | @table t u keys nodes braces =>
    have ht : t.Alike u := (alike_table_iff.mp (.table keys nodes braces)).1
    rw [isDependency, isDependency, Bool.eq_iff_iff, TableOf.isDependency_iff_entryShaped,
      TableOf.isDependency_iff_entryShaped, ← ht.entryShaped_iff]
    apply and_congr_left
    intro hshape
    rw [braces hshape]

namespace TableOf

variable {t u : Table}

theorem Alike.isLeaf_eq (h : t.Alike u) : t.isLeaf = u.isLeaf := by
  rw [Bool.eq_iff_iff, isLeaf, isLeaf, List.all_eq_true, List.all_eq_true]
  apply forall_mem_iff_of_forall₂ h
  rintro e f ⟨-, hnode⟩
  rw [hnode.isDependency_eq]

theorem Alike.get? (h : t.Alike u) (key : String) :
    Option.Rel Node.Alike (t.get? key) (u.get? key) :=
  get?_rel_of_forall₂ h key

end TableOf

theorem Node.Alike.kind_eq {node other : Node} (h : node.Alike other) : node.kind = other.kind := by
  cases h with
  | string _ => rfl
  | other _ => rfl
  | table keys nodes braces =>
    have ht := (alike_table_iff.mp (.table keys nodes braces)).1
    rw [kind, kind, ht.isLeaf_eq]

/-- Both succeed with corresponding results, or both fail with the same error. -/
inductive SameOutcome {ε α β : Type} (R : α → β → Prop) : Except ε α → Except ε β → Prop where
  | ok {a : α} {b : β} (results : R a b) : SameOutcome R (.ok a) (.ok b)
  | error (e : ε) : SameOutcome R (.error e) (.error e)

theorem SameOutcome.mapError {ε ε' α β : Type} {R : α → β → Prop} {a : Except ε α} {b : Except ε β}
    (h : SameOutcome R a b) (f : ε → ε') : SameOutcome R (a.mapError f) (b.mapError f) := by
  cases h with
  | ok results => exact .ok results
  | error e => exact .error (f e)

namespace TableOf

variable {t u : Table}

/-- At one key of alike tables nothing is found in either, or one scalar, or alike tables. -/
theorem Alike.get?_cases (h : t.Alike u) (key : String) :
    t.get? key = none ∧ u.get? key = none ∨
      (∃ node, t.get? key = some node ∧ u.get? key = some node ∧ node.asTable? = none) ∨
      ∃ next other, t.get? key = some (.table next) ∧ u.get? key = some (.table other) ∧
        (Node.table next).Alike (.table other) := by
  have hget := h.get? key
  generalize ht : t.get? key = found at hget
  generalize hu : u.get? key = found' at hget
  cases hget with
  | none => exact Or.inl ⟨rfl, rfl⟩
  | some hnode =>
    cases hnode with
    | string _ | other _ => exact Or.inr (Or.inl ⟨_, rfl, rfl, rfl⟩)
    | table keys nodes braces => exact Or.inr (Or.inr ⟨_, _, rfl, rfl, .table keys nodes braces⟩)

theorem arrive_sameOutcome (h : t.Alike u) (key : String) :
    SameOutcome Alike (t.arrive key) (u.arrive key) := by
  rcases h.get?_cases key with ⟨ht, hu⟩ | ⟨node, ht, hu, hnode⟩ | ⟨next, other, ht, hu, hnext⟩
  · rw [arrive_of_none ht, arrive_of_none hu]
    exact .error _
  · rw [arrive_of_scalar ht hnode, arrive_of_scalar hu hnode]
    exact .error _
  · have hnext' : next.Alike other := (Node.alike_table_iff.mp hnext).1
    rw [arrive_of_table ht, arrive_of_table hu, h.isLeaf_eq, hnext'.isLeaf_eq]
    split
    · exact .error _
    · split
      · exact .ok hnext'
      · exact .error _

theorem passThrough_sameOutcome (h : t.Alike u) (key : String) :
    SameOutcome Alike (t.passThrough key) (u.passThrough key) := by
  rcases h.get?_cases key with ⟨ht, hu⟩ | ⟨node, ht, hu, hnode⟩ | ⟨next, other, ht, hu, hnext⟩
  · rw [passThrough_of_none ht, passThrough_of_none hu]
    exact .error _
  · rw [passThrough_of_scalar ht hnode, passThrough_of_scalar hu hnode]
    exact .error _
  · have hnext' : next.Alike other := (Node.alike_table_iff.mp hnext).1
    rw [passThrough_of_table ht, passThrough_of_table hu, h.isLeaf_eq, hnext'.isLeaf_eq,
      hnext'.isEmpty_eq]
    split
    · exact .error _
    · split
      · exact .error _
      · exact .ok hnext'

theorem walk_sameOutcome (h : t.Alike u) (path : List String) :
    SameOutcome Alike (t.walk path) (u.walk path) := by
  induction path generalizing t u with
  | nil => exact .ok h
  | cons key rest ih =>
    by_cases hr : rest = []
    · subst hr
      rw [walk, walk]
      exact (arrive_sameOutcome h key).mapError _
    · have hstep := passThrough_sameOutcome h key
      generalize ht : t.passThrough key = entered at hstep
      generalize hu : u.passThrough key = entered' at hstep
      cases hstep with
      | ok hnext =>
        rw [walk_cons_of_ok hr ht, walk_cons_of_ok hr hu]
        exact ih hnext
      | error obstacle =>
        rw [walk_cons_of_error hr ht, walk_cons_of_error hr hu]
        exact .error _

theorem descend?_rel (h : t.Alike u) (key : String) (rest : List String) :
    Option.Rel Node.Alike (t.descend? (key :: rest)) (u.descend? (key :: rest)) := by
  induction rest generalizing t u key with
  | nil => exact h.get? key
  | cons key' rest ih =>
    have hr : key' :: rest ≠ [] := List.cons_ne_nil _ _
    rcases h.get?_cases key with ⟨ht, hu⟩ | ⟨node, ht, hu, hnode⟩ | ⟨next, other, ht, hu, hnext⟩
    · rw [descend?_cons_of_none ht, descend?_cons_of_none hu]
      exact .none
    · rw [descend?_cons_of_scalar ht hnode hr, descend?_cons_of_scalar hu hnode hr]
      exact .none
    · rw [descend?_cons_of_table ht, descend?_cons_of_table hu]
      exact ih (Node.alike_table_iff.mp hnext).1 key'

end TableOf

theorem Node.Alike.asString?_eq {node other : Node} (h : node.Alike other) :
    node.asString? = other.asString? := by
  cases h <;> rfl

/-- What alike tables hold under a key is the same string, or a string in neither. -/
theorem TableOf.Alike.bind_asString?_eq {t u : Table} (h : t.Alike u) (key : String) :
    (t.get? key).bind Node.asString? = (u.get? key).bind Node.asString? := by
  have hget := h.get? key
  generalize t.get? key = found at hget
  generalize u.get? key = found' at hget
  cases hget with
  | none => rfl
  | some hnode => exact hnode.asString?_eq

theorem Record.ofSectionEntry_congr {node other : Node} (h : node.Alike other)
    (path name : String) :
    Record.ofSectionEntry path name node = Record.ofSectionEntry path name other := by
  have hread : Record.versionAndChannel node = Record.versionAndChannel other := by
    cases h with
    | string _ | other _ => rfl
    | table keys nodes braces =>
      have hnode : (Node.table _).Alike (.table _) := .table keys nodes braces
      have ht := (Node.alike_table_iff.mp hnode).1
      have hdependency : TableOf.isDependency _ = TableOf.isDependency _ := hnode.isDependency_eq
      simp only [Record.versionAndChannel, hdependency, ht.bind_asString?_eq, hnode.kind_eq]
  rw [Record.ofSectionEntry, Record.ofSectionEntry, Record.ofEntry, Record.ofEntry, hread]

/-- Alike nodes are listed under the same names. -/
theorem Node.Alike.sectionsAt_eq {node other : Node} (h : node.Alike other) (name : String) :
    node.sectionsAt name = other.sectionsAt name := by
  induction node using Node.tree_induction generalizing other name with
  | string _ | other _ =>
    cases h
    rfl
  | table t ih =>
    cases h with
    | @table _ u keys nodes braces =>
      have ht : t.Alike u := (Node.alike_table_iff.mp (.table keys nodes braces)).1
      have hbelow : sectionsBelow name t.entries = sectionsBelow name u.entries := by
        rw [sectionsBelow_eq_flatMap, sectionsBelow_eq_flatMap, List.flatMap_def, List.flatMap_def]
        apply congrArg List.flatten
        apply map_eq_of_forall₂ ht
        rintro e he f ⟨hkey, hnode⟩
        rw [ih e he hnode, hkey]
      rw [Node.sectionsAt_table, Node.sectionsAt_table, ht.isLeaf_eq, ht.isEmpty_eq, hbelow]

namespace Manifest

section Roots
variable {m m' : Manifest} (h : m.root.Alike m'.root)
include h

theorem leafAt_sameOutcome (path : SectionPath) :
    SameOutcome TableOf.Alike (m.leafAt path) (m'.leafAt path) := by
  rw [leafAt_eq_walk, leafAt_eq_walk]
  exact (TableOf.walk_sameOutcome h path.segments).mapError _

theorem records_congr (path : SectionPath) : m.records path = m'.records path := by
  have hleaf := leafAt_sameOutcome h path
  unfold records
  generalize m.leafAt path = found at hleaf
  generalize m'.leafAt path = found' at hleaf
  cases hleaf with
  | error _ => rfl
  | @ok leaf leaf' halike =>
    let read (e : String × Node) := Record.ofSectionEntry path.text e.1 e.2
    have hread : leaf.entries.map read = leaf'.entries.map read := by
      apply map_eq_of_forall₂ halike
      rintro ⟨key, node⟩ - ⟨_, other⟩ ⟨rfl, hnode⟩
      exact Record.ofSectionEntry_congr hnode path.text key
    show leaf.entries.mapM (id ∘ read) = leaf'.entries.mapM (id ∘ read)
    rw [← List.mapM_map, ← List.mapM_map, hread]

theorem recordsAt_congr (name : String) : m.recordsAt name = m'.recordsAt name := by
  unfold recordsAt
  cases SectionPath.parse name with
  | error _ => rfl
  | ok path => exact records_congr h path

theorem sections_congr : m.sections = m'.sections := by
  rw [sections, sections, List.flatMap_def, List.flatMap_def]
  apply congrArg List.flatten
  apply map_eq_of_forall₂ h
  rintro e - f ⟨hkey, hnode⟩
  rw [hkey, hnode.sectionsAt_eq]

theorem string?_congr (dotted : String) : m.string? dotted = m'.string? dotted := by
  obtain ⟨key, rest, hpieces⟩ := List.exists_cons_of_ne_nil (Text.pieces_ne_nil '.' dotted)
  have hfound := TableOf.descend?_rel h key rest
  rw [string?, string?, hpieces]
  generalize m.root.descend? (key :: rest) = found at hfound
  generalize m'.root.descend? (key :: rest) = found' at hfound
  cases hfound with
  | none => rfl
  | some hnode => exact hnode.asString?_eq

end Roots

/-- Manifests that differ only in braces that mean nothing cannot be told apart. The braces around
the root never mean anything. -/
theorem same_for_alike_roots {m m' : Manifest} (h : m.root.Alike m'.root) :
    (∀ path, SameOutcome TableOf.Alike (m.leafAt path) (m'.leafAt path)) ∧
    (∀ name, m.recordsAt name = m'.recordsAt name) ∧
    (∀ name target, m.requirementsAt name target = m'.requirementsAt name target) ∧
    m.sections = m'.sections ∧
    ∀ dotted, m.string? dotted = m'.string? dotted := by
  refine ⟨leafAt_sameOutcome h, recordsAt_congr h, fun name target => ?_, sections_congr h,
    string?_congr h⟩
  rw [requirementsAt, requirementsAt, recordsAt_congr h]

/-- One manifest in two formats. All tables are written between braces in the first one. -/
def bracedText : String :=
  "\x7b\"private\": true, \"deps\": " ++
  "\x7b\"numpy\": \"^1.16\", \"torch\": \x7b\"version\": \"1.4\", \"channel\": \"pip\"\x7d\x7d\x7d"

def headedText : String :=
  "private = true\n[deps]\nnumpy = \"^1.16\"\n" ++
  "torch = \x7b version = \"1.4\", channel = \"pip\" \x7d\n"

def torchEntry : Table :=
  ((TableOf.empty true).insert "version" (.string "1.4")).insert "channel" (.string "pip")

def braced : Manifest :=
  let numpy := (TableOf.empty true).insert "numpy" (.string "^1.16")
  let deps := numpy.insert "torch" (.table torchEntry)
  ⟨((TableOf.empty true).insert "private" (.other .boolean)).insert "deps" (.table deps)⟩

def headed : Manifest :=
  let numpy := (TableOf.empty false).insert "numpy" (.string "^1.16")
  let deps := numpy.insert "torch" (.table torchEntry)
  ⟨((TableOf.empty false).insert "private" (.other .boolean)).insert "deps" (.table deps)⟩

/-- The statements of the second one. -/
def headedStatements : List Toml.Statement :=
  let torch := [("version", .string "1.4"), ("channel", .string "pip")]
  [.assign [] "private" (.scalar .boolean), .table [] "deps", .assign [] "numpy" (.string "^1.16"),
    .assign [] "torch" (.table .braces torch)]

theorem parse_headedText : Manifest.parse .toml headedText = .ok headed := by
  have hread : Text.Reader.runAll (Toml.statements Toml.manifestConventions) headedText =
      some headedStatements := rfl
  rw [Manifest.parse, Toml.readManifest, Toml.readDocument?, hread]
  rfl

theorem same_for_alike_roots_two_formats :
    Manifest.parse .json bracedText = .ok braced ∧ Manifest.parse .toml headedText = .ok headed ∧
    braced.root.Alike headed.root ∧
    (∀ path, SameOutcome TableOf.Alike (braced.leafAt path) (headed.leafAt path)) ∧
    (∀ name, braced.recordsAt name = headed.recordsAt name) ∧
    (∀ name target, braced.requirementsAt name target = headed.requirementsAt name target) ∧
    braced.sections = headed.sections ∧
    ∀ dotted, braced.string? dotted = headed.string? dotted := by
  have htorch : (Node.table torchEntry).Alike (.table torchEntry) :=
    Node.alike_table_iff.mpr ⟨.cons ⟨rfl, .string _⟩ (.cons ⟨rfl, .string _⟩ .nil), fun _ => rfl⟩
  have h : braced.root.Alike headed.root := by
    refine .cons ⟨rfl, .other _⟩ (.cons ⟨rfl, Node.alike_table_iff.mpr ⟨?_, fun hshape => ?_⟩⟩ .nil)
    · exact .cons ⟨rfl, .string _⟩ (.cons ⟨rfl, htorch⟩ .nil)
    · exact absurd (hshape.2 _ List.mem_cons_self).1 (by decide)
  exact ⟨rfl, parse_headedText, h, same_for_alike_roots h⟩

end Manifest

end EnvSpec
