import EnvSpec.Proofs.Version.Semantic

/-!
# Upper bounds by way of semantic versions

An upper bound can be found with a reader of semantic versions: missing components are written as
zeros, the result is read, and of its three components those are kept that were there before. How
many that are is counted in the text before it is read. So a text with more dots would ask for more
components than there are, and the accesses below fail outside their list. With any reader of
semantic versions none of them fails, and the bounds are those of the release number in the text.
-/
namespace EnvSpec.Version

/-- An access to a place outside a list of this length. -/
structure OutOfRange where
  place : Nat
  length : Nat
deriving Repr, DecidableEq

/-- The items before place `k`, all of which have to be there. -/
def sliceTo {α : Type} (xs : List α) (k : Nat) : Except OutOfRange (List α) :=
  if k ≤ xs.length then .ok (xs.take k) else .error ⟨k, xs.length⟩

def itemAt {α : Type} (xs : List α) (k : Nat) : Except OutOfRange α :=
  if h : k < xs.length then .ok xs[k] else .error ⟨k, xs.length⟩

/-- The place of the last item. An empty list has none. -/
def lastPlace {α : Type} (xs : List α) : Except OutOfRange Nat :=
  if xs.isEmpty then .error ⟨0, 0⟩ else .ok (xs.length - 1)

/-- One or two components are brought to three. -/
def padded (version : String) : String :=
  match (Text.pieces '.' version).length with
  | 1 => version ++ ".0.0"
  | 2 => version ++ ".0"
  | _ => version

section Steps
variable (read : String → Option SemanticVersion)

/-- The version that is read from the padded text if it has no tags, and the number of components
that were written. -/
def normalized? (version : String) : Option (SemanticVersion × Nat) := do
  let v ← read (padded (Text.trim version))
  if v.prerelease ≠ [] ∨ v.build ≠ [] then none
  else some (v, (Text.pieces '.' (Text.trim version)).length)

def writtenComponents (version : String) : Except OutOfRange (Option (List Nat)) :=
  match normalized? read version with
  | none => .ok none
  | some (v, written) => (sliceTo v.components written).map some

def raiseAt (components : List Nat) (k : Nat) : Except OutOfRange (Option String) := do
  let upper ← sliceTo components (k + 1)
  let n ← itemAt upper k
  return if n + 1 < componentLimit then some (text (upper.set k (n + 1))) else none

def upper (place : List Nat → Except OutOfRange Nat) (version : String) :
    Except OutOfRange (Option String) := do
  match ← writtenComponents read version with
  | none => return none
  | some components => raiseAt components (← place components)

/-- The last place is looked up even where a component is found that is not zero. -/
def caretPlace (components : List Nat) : Except OutOfRange Nat := do
  let last ← lastPlace components
  return (components.findIdx? (· ≠ 0)).getD last

def tildePlace (components : List Nat) : Except OutOfRange Nat :=
  .ok (if 2 ≤ components.length then 1 else 0)

def caretUpper (version : String) : Except OutOfRange (Option String) :=
  upper read caretPlace version

def tildeUpper (version : String) : Except OutOfRange (Option String) :=
  upper read tildePlace version

end Steps

/-- Padding adds zeros behind the components and touches none of them. -/
theorem pieces_padded (version : String) :
    Text.pieces '.' (padded version) =
      Text.pieces '.' version ++ List.replicate (3 - (Text.pieces '.' version).length) "0" := by
  have hpos := List.length_pos_iff.mpr (Text.pieces_ne_nil '.' version)
  unfold padded
  split
  · next hlen =>
    have hdot : version ++ ".0.0" = version ++ String.singleton '.' ++ "0.0" := by
      rw [String.append_assoc]
      rfl
    have hzeros : Text.pieces '.' "0.0" = ["0", "0"] := by decide
    rw [hlen, hdot, Text.pieces_append, hzeros]
    rfl
  · next hlen =>
    have hdot : version ++ ".0" = version ++ String.singleton '.' ++ "0" := by
      rw [String.append_assoc]
      rfl
    have hzeros : Text.pieces '.' "0" = ["0"] := by decide
    rw [hlen, hdot, Text.pieces_append, hzeros]
    rfl
  · next hone htwo =>
    have hone' : (Text.pieces '.' version).length ≠ 1 := hone
    have htwo' : (Text.pieces '.' version).length ≠ 2 := htwo
    have hzero : 3 - (Text.pieces '.' version).length = 0 := by omega
    rw [hzero, List.replicate_zero, List.append_nil]

theorem padded_text {components : List Nat} (h : components ≠ []) :
    padded (text components) = text (components ++ List.replicate (3 - components.length) 0) := by
  have hpieces := pieces_padded (text components)
  rw [pieces_text h, List.length_map] at hpieces
  rw [← Text.join_pieces '.' (padded (text components)), hpieces, text, List.map_append,
    List.map_replicate]
  rfl

/-- Three components of a padded text are those that were there before, and then zeros. -/
theorem eq_text_of_padded {version : String} {components : List Nat} (hlen : components.length = 3)
    (h : padded version = text components) :
    (Text.pieces '.' version).length ≤ 3 ∧
      version = text (components.take (Text.pieces '.' version).length) := by
  have hne : components ≠ [] := by
    rintro rfl
    cases hlen
  have hpieces := pieces_padded version
  rw [h, pieces_text hne] at hpieces
  constructor
  · have hlength := congrArg List.length hpieces
    rw [List.length_map, List.length_append, hlen] at hlength
    omega
  · have htake := congrArg (List.take (Text.pieces '.' version).length) hpieces
    rw [List.take_left, ← List.map_take] at htake
    rw [text, htake, Text.join_pieces]

section Accesses
variable {read : String → Option SemanticVersion} (hread : SemanticVersion.IsReader read)
  {version : String}
include hread

/-- What passes is a text that padding makes the text of three components. -/
theorem normalized?_eq_some_iff {v : SemanticVersion} {written : Nat} :
    normalized? read version = some (v, written) ↔
      (v.Valid ∧ padded (Text.trim version) = text v.components) ∧
        (v.prerelease = [] ∧ v.build = []) ∧
          (Text.pieces '.' (Text.trim version)).length = written := by
  have htext (hprerelease : v.prerelease = []) (hbuild : v.build = []) :
      v.text = text v.components := by
    rw [SemanticVersion.text, SemanticVersion.tagged, if_pos hbuild, SemanticVersion.tagged,
      if_pos hprerelease]
  have hexact (text : String) (v : SemanticVersion) :
      read text = some v ↔ v.Valid ∧ v.text = text := hread text v
  simp only [normalized?, Option.bind_eq_bind, Option.bind_eq_some_iff, hexact]
  constructor
  · rintro ⟨v', ⟨hvalid, hpadded⟩, h⟩
    split at h
    · cases h
    · next htags =>
      obtain ⟨rfl, rfl⟩ := Prod.mk.inj (Option.some.inj h)
      rw [not_or, not_not, not_not] at htags
      rw [htext htags.1 htags.2] at hpadded
      exact ⟨⟨hvalid, hpadded.symm⟩, htags, rfl⟩
  · rintro ⟨⟨hvalid, hpadded⟩, ⟨hprerelease, hbuild⟩, rfl⟩
    refine ⟨v, ⟨hvalid, by rw [htext hprerelease hbuild, hpadded]⟩, if_neg ?_⟩
    rw [not_or, not_not, not_not]
    exact ⟨hprerelease, hbuild⟩

theorem exists_normalized?_of_writes {components : List Nat}
    (h : Writes (Text.trim version) components) :
    ∃ v, normalized? read version = some (v, components.length) := by
  have hlength : (components ++ List.replicate (3 - components.length) 0).length = 3 := by
    have hle := h.length_le
    rw [List.length_append, List.length_replicate]
    omega
  obtain ⟨major, minor, patch, hthree⟩ := List.length_eq_three.mp hlength
  refine ⟨⟨major, minor, patch, [], []⟩, (normalized?_eq_some_iff hread).mpr ⟨⟨⟨?_, ?_, ?_⟩, ?_⟩,
    ⟨rfl, rfl⟩, ?_⟩⟩
  · intro n hn
    rw [SemanticVersion.components, ← hthree] at hn
    rcases List.mem_append.mp hn with hn | hn
    · exact h.lt_limit n hn
    · rw [List.eq_of_mem_replicate hn]
      decide
  · exact List.forall_mem_nil _
  · exact List.forall_mem_nil _
  · rw [h.written, padded_text h.nonempty, hthree]
    rfl
  · rw [h.written, pieces_text h.nonempty, List.length_map]

/-- The slice of the components stays inside the three that there are, and gives the components of
the release number. -/
theorem writtenComponents_eq : writtenComponents read version = .ok (release? version) := by
  unfold writtenComponents
  cases hnormalized : normalized? read version with
  | none =>
    cases hrelease : release? version with
    | none => rfl
    | some components =>
      obtain ⟨v, hv⟩ := exists_normalized?_of_writes hread (release?_eq_some_iff.mp hrelease)
      rw [hnormalized] at hv
      cases hv
  | some normalized =>
    obtain ⟨v, written⟩ := normalized
    obtain ⟨⟨hvalid, hpadded⟩, -, rfl⟩ := (normalized?_eq_some_iff hread).mp hnormalized
    obtain ⟨hle, htext⟩ := eq_text_of_padded rfl hpadded
    have hne : v.components.take (Text.pieces '.' (Text.trim version)).length ≠ [] := by
      rw [ne_eq, List.take_eq_nil_iff, not_or]
      exact ⟨fun h => Text.pieces_ne_nil _ _ (List.eq_nil_of_length_eq_zero h), List.cons_ne_nil _ _⟩
    have hwrites : Writes (Text.trim version)
        (v.components.take (Text.pieces '.' (Text.trim version)).length) :=
      ⟨htext, hne, (List.length_take_le' _ _).trans (Nat.le_refl 3),
        fun n hn => hvalid.lt_limit n (List.mem_of_mem_take hn)⟩
    have hslice : sliceTo v.components (Text.pieces '.' (Text.trim version)).length =
        .ok (v.components.take (Text.pieces '.' (Text.trim version)).length) := if_pos hle
    show (sliceTo v.components _).map some = _
    rw [release?_eq_some_iff.mpr hwrites, hslice]
    rfl

end Accesses

/-- At a place that is there the slice, the look-up and the change succeed. -/
theorem raiseAt_eq {components : List Nat} {k : Nat} (hk : k < components.length) :
    raiseAt components k = .ok ((raise? components k).map text) := by
  have hslice : sliceTo components (k + 1) = .ok (components.take (k + 1)) := if_pos hk
  have htake : components.take (k + 1) = components.take k ++ [components[k]] :=
    (List.take_append_getElem hk).symm
  have hlength : (components.take k).length = k := List.length_take_of_le hk.le
  have hitem : itemAt (components.take (k + 1)) k = .ok components[k] := by
    rw [itemAt, dif_pos (by rw [List.length_take]; omega), List.getElem_take]
  have hset : (components.take (k + 1)).set k (components[k] + 1) = raised components k := by
    rw [htake, List.set_append_right k _ (Nat.le_of_eq hlength), hlength, Nat.sub_self, raised,
      List.getD_eq_getElem _ _ hk]
    rfl
  rw [raise?_eq hk, raiseAt, hslice]
  show (itemAt (components.take (k + 1)) k >>= _) = _
  rw [hitem, List.getD_eq_getElem _ _ hk]
  show Except.ok (if components[k] + 1 < componentLimit then _ else _) = _
  rw [hset]
  split <;> rfl

theorem caretPlace_eq {components : List Nat} (h : components ≠ []) :
    caretPlace components = .ok (caretIndex components) := by
  obtain ⟨n, rest, rfl⟩ := List.exists_cons_of_ne_nil h
  rfl

/-- With a place inside the components no access fails. -/
theorem upper_eq {read : String → Option SemanticVersion} (hread : SemanticVersion.IsReader read)
    {place : List Nat → Except OutOfRange Nat} {index : List Nat → Nat}
    (hplace : ∀ {components}, components ≠ [] → place components = .ok (index components))
    (hindex : ∀ {components}, components ≠ [] → index components < components.length)
    (version : String) : upper read place version = .ok (bound? index version) := by
  rw [upper, writtenComponents_eq hread, bound?]
  cases hrelease : release? version with
  | none => rfl
  | some components =>
    have hne := (release?_eq_some_iff.mp hrelease).nonempty
    show (place components >>= raiseAt components) = _
    rw [hplace hne]
    exact raiseAt_eq (hindex hne)

/-- The text is the release number with the component at the place raised, and with nothing behind
that. -/
def IsBound (place : List Nat → Nat → Prop) (version upper : String) : Prop :=
  ∃ components k, Writes version components ∧ place components k ∧
    components.getD k 0 + 1 < componentLimit ∧ upper = text (raised components k)

theorem bound?_eq_some_iff_isBound {index : List Nat → Nat} {place : List Nat → Nat → Prop}
    (hindex : ∀ {components}, components ≠ [] → index components < components.length)
    (hplace : ∀ {components}, components ≠ [] → ∀ {k}, place components k ↔ k = index components)
    {version upper : String} :
    bound? index version = some upper ↔ IsBound place (Text.trim version) upper := by
  rw [bound?_eq_some_iff hindex, IsBound]
  refine exists_congr fun components => ?_
  constructor
  · rintro ⟨hwrites, hlt, rfl⟩
    exact ⟨_, hwrites, (hplace hwrites.nonempty).mpr rfl, hlt, rfl⟩
  · rintro ⟨k, hwrites, hk, hlt, rfl⟩
    obtain rfl := (hplace hwrites.nonempty).mp hk
    exact ⟨hwrites, hlt, rfl⟩

/-- Both upper bounds are found without an access outside a list, whichever reader of semantic
versions is used. There is one exactly of a release number whose component at the place can be
raised: the leftmost one that is not zero, or else the last one, for the caret; the minor one, or
else the major one, for the tilde. -/
theorem upperBounds_exact {read : String → Option SemanticVersion}
    (hread : SemanticVersion.IsReader read) (version : String) :
    caretUpper read version = .ok (caretBound? version) ∧
    tildeUpper read version = .ok (tildeBound? version) ∧
    (∀ upper, caretBound? version = some upper ↔ IsBound IsPivot (Text.trim version) upper) ∧
    (∀ upper, tildeBound? version = some upper ↔
      IsBound (fun components k => k = if 2 ≤ components.length then 1 else 0)
        (Text.trim version) upper) := by
  refine ⟨?_, ?_, fun upper => ?_, fun upper => ?_⟩
  · exact upper_eq hread caretPlace_eq caretIndex_lt_length version
  · exact upper_eq hread (fun _ => rfl) tildeIndex_lt_length version
  · exact bound?_eq_some_iff_isBound caretIndex_lt_length isPivot_iff
  · exact bound?_eq_some_iff_isBound tildeIndex_lt_length fun _ => Iff.rfl

/-- A release number, and a version that has more dots than components. -/
theorem upperBounds_exact_dotted_tag :
    SemanticVersion.IsReader SemanticVersion.read? ∧
    caretUpper SemanticVersion.read? "0.0.3" = .ok (some "0.0.4") ∧
    IsBound IsPivot "0.0.3" "0.0.4" ∧
    tildeUpper SemanticVersion.read? "1.0.0-rc.1" = .ok none ∧
    ∀ upper, ¬IsBound IsPivot "1.0.0-rc.1" upper := by
  have hread := SemanticVersion.isReader_read?
  obtain ⟨hupper, -, hbound, -⟩ := upperBounds_exact hread "0.0.3"
  obtain ⟨-, htagged, hnone, -⟩ := upperBounds_exact hread "1.0.0-rc.1"
  have hcaret : caretBound? "0.0.3" = some "0.0.4" := by decide
  have hcaretTagged : caretBound? "1.0.0-rc.1" = none := by decide
  have htildeTagged : tildeBound? "1.0.0-rc.1" = none := by decide
  refine ⟨hread, hcaret ▸ hupper, (hbound _).mp hcaret, htildeTagged ▸ htagged, ?_⟩
  intro upper hupper
  rw [(hnone upper).mpr hupper] at hcaretTagged
  cases hcaretTagged

end EnvSpec.Version
