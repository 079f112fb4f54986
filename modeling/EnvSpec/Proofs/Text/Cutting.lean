import Mathlib.Data.List.DropRight
import Mathlib.Data.List.TakeWhile
import EnvSpec.Text.Blank
import EnvSpec.Text.Pieces

/-!
# Cutting texts

Trimming leaves a text without blanks as it is, a join of joins is one join, and the pieces of a
text hold none of its separators. A text in which every line is ended by a line break gives back
its lines.
-/
namespace EnvSpec.Text

/-- No character is blank. -/
def Unblank (cs : List Char) : Prop := ∀ c ∈ cs, isBlank c = false

-- The instances of this library for characters are named: others go through all characters.
instance (cs : List Char) : Decidable (Unblank cs) :=
  List.decidableBAll (fun c => isBlank c = false) cs

theorem unblank_append {cs ds : List Char} : Unblank (cs ++ ds) ↔ Unblank cs ∧ Unblank ds :=
  List.forall_mem_append

theorem dropWhile_isBlank_of_unblank {cs : List Char} (h : Unblank cs) :
    cs.dropWhile isBlank = cs := by
  cases cs with
  | nil => rfl
  | cons c _ => rw [List.dropWhile_cons, h c List.mem_cons_self, if_neg Bool.false_ne_true]

theorem trimStartChars_of_unblank {cs : List Char} (h : Unblank cs) : trimStartChars cs = cs :=
  dropWhile_isBlank_of_unblank h

theorem trimChars_of_unblank {cs : List Char} (h : Unblank cs) : trimChars cs = cs := by
  have hr : Unblank cs.reverse := fun c hc => h c (List.mem_reverse.mp hc)
  rw [trimChars, trimStartChars_of_unblank h, trimEndChars, dropWhile_isBlank_of_unblank hr,
    List.reverse_reverse]

theorem trim_of_unblank {s : String} (h : Unblank s.toList) : trim s = s := by
  rw [trim, trimChars_of_unblank h, String.ofList_toList]

theorem trimStartChars_of_trimmed {cs : List Char} (h : trimChars cs = cs) :
    trimStartChars cs = cs := by
  have hstart := List.dropWhile_sublist (l := cs) isBlank
  have hend := (List.dropWhile_sublist (l := (trimStartChars cs).reverse) isBlank).length_le
  have hlen : (trimChars cs).length = cs.length := by rw [h]
  rw [trimChars, trimEndChars, List.length_reverse] at hlen
  rw [List.length_reverse] at hend
  exact hstart.eq_of_length (Nat.le_antisymm hstart.length_le (hlen ▸ hend))

/-- What is left by trimming does not begin with a blank. -/
theorem trimStartChars_trimChars (cs : List Char) :
    trimStartChars (trimChars cs) = trimChars cs := by
  have hpre : trimChars cs <+: trimStartChars cs := by
    have hsuffix := List.dropWhile_suffix (l := (trimStartChars cs).reverse) isBlank
    have hreverse := List.reverse_prefix.mpr hsuffix
    rwa [List.reverse_reverse] at hreverse
  cases htrim : trimChars cs with
  | nil => rfl
  | cons c rest =>
    rw [htrim] at hpre
    obtain ⟨more, hmore⟩ := hpre
    have hne : trimStartChars cs ≠ [] := by
      rw [← hmore]
      exact List.cons_ne_nil _ _
    have hhead : (trimStartChars cs).head hne = c := by
      simp only [← hmore, List.cons_append, List.head_cons]
    have hblank := List.head_dropWhile_not isBlank hne
    rw [trimStartChars, List.dropWhile_cons, if_neg]
    rw [← hhead]
    exact Bool.eq_false_iff.mp hblank

theorem trimChars_trimChars (cs : List Char) : trimChars (trimChars cs) = trimChars cs := by
  have hend : trimEndChars (trimChars cs) = trimChars cs := by
    simp only [trimChars, trimEndChars, List.reverse_reverse, List.dropWhile_idempotent isBlank]
  rw [trimChars, trimStartChars_trimChars, hend]

theorem mem_of_mem_trimStartChars {cs : List Char} {c : Char} (h : c ∈ trimStartChars cs) : c ∈ cs :=
  (List.dropWhile_sublist _).subset h

theorem mem_of_mem_trimChars {cs : List Char} {c : Char} (h : c ∈ trimChars cs) : c ∈ cs := by
  have hend := (List.dropWhile_sublist _).subset (List.mem_reverse.mp h)
  exact mem_of_mem_trimStartChars (List.mem_reverse.mp hend)

/-- Trimming leaves nothing exactly of the texts that are all blank. -/
theorem isAllBlank_iff {s : String} : isAllBlank s = true ↔ trim s = "" := by
  have hall : isAllBlank s = true ↔ trimStartChars s.toList = [] := by
    rw [isAllBlank, trimStartChars, List.dropWhile_eq_nil_iff, List.all_eq_true]
  have hnil : trimChars s.toList = [] ↔ trimStartChars s.toList = [] := by
    constructor
    · intro h
      by_contra hne
      have hrest : (trimStartChars s.toList).reverse.dropWhile isBlank = [] :=
        List.reverse_eq_nil_iff.mp h
      have hfirst := List.mem_reverse.mpr (List.head_mem hne)
      -- The character that the front keeps is not blank, so the end keeps it too.
      have hblank := List.dropWhile_eq_nil_iff.mp hrest _ hfirst
      have hkept := List.head_dropWhile_not isBlank hne
      exact Bool.false_ne_true (hkept.symm.trans hblank)
    · intro h
      rw [trimChars, h]
      rfl
  rw [hall, ← hnil, ← toList_trim, String.toList_eq_nil_iff]

/-- A front part ends where the first character stands that cannot be in it. -/
theorem takeWhile_append_of_head {p : Char → Bool} {cs rest : List Char}
    (hcs : ∀ c ∈ cs, p c = true) (hrest : ∀ c, rest.head? = some c → p c = false) :
    (cs ++ rest).takeWhile p = cs := by
  rw [List.takeWhile_append_of_pos hcs]
  cases rest with
  | nil => rw [List.takeWhile_nil, List.append_nil]
  | cons c _ =>
    rw [List.takeWhile_cons, hrest c rfl, if_neg Bool.false_ne_true, List.append_nil]

theorem dropWhile_append_of_head {p : Char → Bool} {cs rest : List Char}
    (hcs : ∀ c ∈ cs, p c = true) (hrest : ∀ c, rest.head? = some c → p c = false) :
    (cs ++ rest).dropWhile p = rest := by
  rw [List.dropWhile_append_of_pos hcs]
  cases rest with
  | nil => rfl
  | cons c _ => rw [List.dropWhile_cons, hrest c rfl, if_neg Bool.false_ne_true]

theorem isBlank_or_head?_of_blanks_append {blanks cs : List Char}
    (h : ∀ c ∈ blanks, isBlank c = true) {c : Char} (hc : (blanks ++ cs).head? = some c) :
    isBlank c = true ∨ cs.head? = some c := by
  rw [List.head?_append, Option.or_eq_some_iff] at hc
  rcases hc with hc | ⟨-, hc⟩
  · exact Or.inl (h c (List.mem_of_head? hc))
  · exact Or.inr hc

/-- Blanks in front are dropped, up to the first character that is none. -/
theorem trimStartChars_blanks_append {blanks : List Char} (h : ∀ c ∈ blanks, isBlank c = true)
    (cs : List Char) : trimStartChars (blanks ++ cs) = trimStartChars cs :=
  List.dropWhile_append_of_pos h

theorem trimStartChars_append {cs : List Char} (hne : cs ≠ [])
    (h : ∀ c, cs.head? = some c → isBlank c = false) (rest : List Char) :
    trimStartChars (cs ++ rest) = cs ++ rest := by
  obtain ⟨c, cs, rfl⟩ := List.exists_cons_of_ne_nil hne
  rw [trimStartChars, List.cons_append, List.dropWhile_cons, h c rfl, if_neg Bool.false_ne_true]

/-- The end is trimmed back to the last character that is not blank. -/
theorem trimEndChars_append {cs : List Char} (h : ∀ c, cs.getLast? = some c → isBlank c = false)
    (rest : List Char) : trimEndChars (cs ++ rest) = cs ++ trimEndChars rest := by
  have hkept : cs.reverse.dropWhile isBlank = cs.reverse := by
    cases hcs : cs.reverse with
    | nil => rfl
    | cons c _ =>
      have hlast : cs.getLast? = some c := by rw [← List.head?_reverse, hcs, List.head?_cons]
      rw [List.dropWhile_cons, h c hlast, if_neg Bool.false_ne_true]
  rw [trimEndChars, List.reverse_append, List.dropWhile_append]
  split
  · next hblank =>
    rw [List.isEmpty_iff] at hblank
    rw [hkept, List.reverse_reverse, trimEndChars, hblank, List.reverse_nil, List.append_nil]
  · rw [List.reverse_append, List.reverse_reverse, trimEndChars]

theorem trimEndChars_append_blanks {blanks : List Char} (h : ∀ c ∈ blanks, isBlank c = true)
    (cs : List Char) : trimEndChars (cs ++ blanks) = trimEndChars cs := by
  have hreverse : ∀ c ∈ blanks.reverse, isBlank c = true := fun c hc => h c (List.mem_reverse.mp hc)
  rw [trimEndChars, List.reverse_append, List.dropWhile_append_of_pos hreverse, trimEndChars]

/-- Trimming the end first makes no difference. -/
theorem trimChars_trimEndChars (cs : List Char) : trimChars (trimEndChars cs) = trimChars cs := by
  obtain ⟨blanks, hcs, hblanks⟩ :
      ∃ blanks, cs = trimEndChars cs ++ blanks ∧ ∀ c ∈ blanks, isBlank c = true :=
    ⟨cs.rtakeWhile isBlank, List.rdropWhile_append_rtakeWhile.symm,
      fun _ => List.mem_rtakeWhile_imp⟩
  conv_rhs => rw [hcs]
  rw [trimChars, trimChars, trimStartChars, trimStartChars, List.dropWhile_append]
  split
  · next hempty =>
    rw [List.isEmpty_iff] at hempty
    rw [hempty, List.dropWhile_eq_nil_iff.mpr hblanks]
  · exact (trimEndChars_append_blanks hblanks _).symm

theorem not_mem_of_mem_splitOn {cs piece : List Char} {sep : Char} (h : piece ∈ cs.splitOn sep) :
    sep ∉ piece := by
  induction cs generalizing piece with
  | nil =>
    obtain rfl := List.mem_singleton.mp h
    exact List.not_mem_nil
  | cons c cs ih =>
    rw [List.splitOn_cons_eq_if_modifyHead] at h
    split at h
    · rcases List.mem_cons.mp h with rfl | h
      · exact List.not_mem_nil
      · exact ih h
    · next hc =>
      obtain ⟨first, rest, hsplit⟩ := List.exists_cons_of_ne_nil (List.splitOn_ne_nil sep cs)
      rw [hsplit, List.modifyHead_cons] at h
      have hsep : sep ≠ c := fun he => hc (beq_iff_eq.mpr he.symm)
      rcases List.mem_cons.mp h with rfl | h
      · simpa [hsep] using ih (hsplit ▸ List.mem_cons_self)
      · exact ih (hsplit ▸ List.mem_cons_of_mem _ h)

theorem not_mem_of_mem_pieces {sep : Char} {s piece : String} (h : piece ∈ pieces sep s) :
    sep ∉ piece.toList := by
  obtain ⟨cs, hcs, rfl⟩ := List.mem_map.mp h
  rw [String.toList_ofList]
  exact not_mem_of_mem_splitOn hcs

theorem pieces_of_not_mem {sep : Char} {s : String} (h : sep ∉ s.toList) : pieces sep s = [s] := by
  rw [pieces, List.splitOn_eq_singleton h, List.map_singleton, String.ofList_toList]

/-- A text is its only piece exactly if the separator is not in it. -/
theorem pieces_eq_singleton_iff {sep : Char} {s : String} :
    pieces sep s = [s] ↔ sep ∉ s.toList := by
  constructor
  · intro h
    exact not_mem_of_mem_pieces (h ▸ List.mem_singleton_self s)
  · exact pieces_of_not_mem

theorem mem_toList_join {sep c : Char} {ps : List String} (h : c ∈ (join sep ps).toList) :
    c = sep ∨ ∃ p ∈ ps, c ∈ p.toList := by
  induction ps with
  | nil => simp [toList_join] at h
  | cons p ps ih =>
    cases ps with
    | nil =>
      rw [join_singleton] at h
      exact Or.inr ⟨p, List.mem_cons_self, h⟩
    | cons q ps =>
      rw [join_cons_cons] at h
      simp only [String.toList_append, String.toList_singleton, List.mem_append,
        List.mem_singleton] at h
      rcases h with (h | h) | h
      · exact Or.inr ⟨p, List.mem_cons_self, h⟩
      · exact Or.inl h
      · exact (ih h).imp_right fun ⟨r, hr, hc⟩ => ⟨r, List.mem_cons_of_mem _ hr, hc⟩

theorem unblank_join {sep : Char} {ps : List String} (hsep : isBlank sep = false)
    (h : ∀ p ∈ ps, Unblank p.toList) : Unblank (join sep ps).toList := by
  intro c hc
  rcases mem_toList_join hc with rfl | ⟨p, hp, hc⟩
  · exact hsep
  · exact h p hp c hc

theorem join_cons_of_ne_nil (sep : Char) (p : String) {ps : List String} (h : ps ≠ []) :
    join sep (p :: ps) = p ++ String.singleton sep ++ join sep ps := by
  cases ps with
  | nil => exact absurd rfl h
  | cons q ps => exact join_cons_cons sep p q ps

/-- A join begins with its first member, and what follows does not depend on it. -/
theorem exists_toList_join_cons (sep : Char) (ps : List String) :
    ∃ rest, ∀ p, (join sep (p :: ps)).toList = p.toList ++ rest := by
  by_cases h : ps = []
  · subst h
    exact ⟨[], fun p => by rw [join_singleton, List.append_nil]⟩
  · refine ⟨sep :: (join sep ps).toList, fun p => ?_⟩
    rw [join_cons_of_ne_nil sep p h]
    simp [List.append_assoc]

theorem mem_toList_join_of_mem {sep c : Char} {ps : List String} {p : String} (hp : p ∈ ps)
    (hc : c ∈ p.toList) : c ∈ (join sep ps).toList := by
  induction ps with
  | nil => exact absurd hp List.not_mem_nil
  | cons q qs ih =>
    by_cases hqs : qs = []
    · rw [hqs] at hp ⊢
      rwa [join_singleton, ← List.mem_singleton.mp hp]
    · rw [join_cons_of_ne_nil sep q hqs]
      simp only [String.toList_append, List.mem_append]
      rcases List.mem_cons.mp hp with rfl | hp
      · exact Or.inl (Or.inl hc)
      · exact Or.inr (ih hp)

theorem mem_of_mem_pieces {sep c : Char} {s piece : String} (h : piece ∈ pieces sep s)
    (hc : c ∈ piece.toList) : c ∈ s.toList := by
  rw [← join_pieces sep s]
  exact mem_toList_join_of_mem h hc

theorem join_append (sep : Char) {ps qs : List String} (hp : ps ≠ []) (hq : qs ≠ []) :
    join sep (ps ++ qs) = join sep ps ++ String.singleton sep ++ join sep qs := by
  induction ps with
  | nil => exact absurd rfl hp
  | cons p ps ih =>
    cases ps with
    | nil => rw [join_singleton, List.singleton_append, join_cons_of_ne_nil sep p hq]
    | cons p' ps =>
      rw [List.cons_append, join_cons_of_ne_nil sep p (by simp), ih (by simp), join_cons_cons]
      simp only [String.append_assoc]

/-- Joining the joins of groups is joining all their members. -/
theorem join_map_join (sep : Char) {groups : List (List String)} (h : ∀ g ∈ groups, g ≠ []) :
    join sep (groups.map (join sep)) = join sep groups.flatten := by
  induction groups with
  | nil => rfl
  | cons g groups ih =>
    have hg := h g List.mem_cons_self
    have hrest := ih fun g' hg' => h g' (List.mem_cons_of_mem _ hg')
    cases groups with
    | nil => rw [List.map_singleton, join_singleton, List.flatten_singleton]
    | cons g' groups =>
      have hne : (g' :: groups).flatten ≠ [] := by
        have hg' := h g' (List.mem_cons_of_mem _ List.mem_cons_self)
        simp [hg']
      rw [List.map_cons, join_cons_of_ne_nil sep _ (by simp), hrest]
      exact (join_append sep hg hne).symm

/-- Reading piece by piece succeeds if every piece is read. -/
theorem mapM_eq_some_iff {α β : Type} {f : α → Option β} {xs : List α} {ys : List β} :
    xs.mapM f = some ys ↔ xs.map f = ys.map some := by
  induction xs generalizing ys with
  | nil => cases ys <;> simp
  | cons x xs ih =>
    rw [List.mapM_cons, List.map_cons]
    cases hx : f x with
    | none => cases ys <;> simp
    | some y =>
      cases ys with
      | nil => cases xs.mapM f <;> simp
      | cons y' ys =>
        have hrest := @ih ys
        cases hxs : xs.mapM f <;> simp_all

/-- Where reading a piece is the inverse of writing one, reading all of them is too. -/
theorem mapM_eq_some_iff_of_inverse {α β : Type} {f : α → Option β} {g : β → α} {p : β → Prop}
    (h : ∀ x y, f x = some y ↔ x = g y ∧ p y) {xs : List α} {ys : List β} :
    xs.mapM f = some ys ↔ xs = ys.map g ∧ ∀ y ∈ ys, p y := by
  rw [mapM_eq_some_iff]
  induction xs generalizing ys with
  | nil => cases ys <;> simp
  | cons x xs ih =>
    cases ys with
    | nil => simp
    | cons y ys =>
      simp only [List.map_cons, List.cons.injEq, h, ih, List.forall_mem_cons]
      exact and_and_and_comm

/-- The line before a line break. A carriage return at its end belongs to the break. -/
def dropReturn (line : String) : String :=
  if line.toList.getLast? = some '\r' then String.ofList line.toList.dropLast else line

/-- The lines of a text. The last one needs no line break. -/
def lines (s : String) : List String :=
  let ps := pieces '\n' s
  ps.dropLast.map dropReturn ++ ps.getLast?.toList.filter (· ≠ "")

/-- A text is cut at a separator into what stands before it and what stands after it. -/
theorem pieces_append (sep : Char) (s t : String) :
    pieces sep (s ++ String.singleton sep ++ t) = pieces sep s ++ pieces sep t := by
  simp only [pieces, String.toList_append, String.toList_singleton, List.append_assoc,
    List.singleton_append]
  rw [List.splitOn_append_cons_self, List.map_append]

/-- There is one more piece than separators. -/
theorem length_pieces (sep : Char) (s : String) :
    (pieces sep s).length = s.toList.count sep + 1 := by
  rw [pieces, List.length_map]
  induction s.toList with
  | nil => rfl
  | cons c cs ih =>
    rw [List.splitOn_cons_eq_if_modifyHead, List.count_cons]
    split
    · rw [List.length_cons, ih]
    · rw [List.length_modifyHead, ih, Nat.add_zero]

theorem pieces_join_lines {ps : List String} (h : ∀ p ∈ ps, '\n' ∉ p.toList) :
    pieces '\n' (String.join (ps.map (· ++ "\n"))) = ps ++ [""] := by
  induction ps with
  | nil => decide
  | cons p ps ih =>
    have hbreak : "\n" = String.singleton '\n' := rfl
    rw [List.map_cons, String.join_cons, hbreak, pieces_append,
      pieces_of_not_mem (h p List.mem_cons_self), ← hbreak,
      ih fun q hq => h q (List.mem_cons_of_mem _ hq), List.singleton_append, List.cons_append]

theorem dropReturn_of_unblank {line : String} (h : Unblank line.toList) : dropReturn line = line := by
  unfold dropReturn
  split
  · next hlast =>
    have hblank := h '\r' (List.mem_of_getLast? hlast)
    exact absurd hblank (by decide)
  · rfl

theorem lines_join {ps : List String} (h : ∀ p ∈ ps, Unblank p.toList) :
    lines (String.join (ps.map (· ++ "\n"))) = ps := by
  have hbreak : ∀ p ∈ ps, '\n' ∉ p.toList := by
    intro p hp hc
    exact absurd (h p hp _ hc) (by decide)
  have hreturn : ps.map dropReturn = ps := by
    have hid := List.map_congr_left fun p hp => dropReturn_of_unblank (h p hp)
    rw [hid, List.map_id']
  simp [lines, pieces_join_lines hbreak, hreturn]

end EnvSpec.Text
