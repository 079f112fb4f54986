/-!
# Entries in the order of their first mention

A map that remembers the order in which its keys were first written is a list of pairs with
pairwise distinct keys. Writing a key again replaces its value and keeps its place. Distinctness
is not part of the type: it holds of the empty list and every operation here keeps it.
-/
namespace EnvSpec

abbrev Entries (κ α : Type) := List (κ × α)

namespace Entries

variable {κ α : Type} [DecidableEq κ]

def keys (entries : Entries κ α) : List κ := entries.map Prod.fst

def get? (entries : Entries κ α) (key : κ) : Option α := entries.lookup key

def insert (entries : Entries κ α) (key : κ) (value : α) : Entries κ α :=
  match entries with
  | [] => [(key, value)]
  | (k, v) :: rest => if k = key then (k, value) :: rest else (k, v) :: insert rest key value

def erase (entries : Entries κ α) (key : κ) : Entries κ α := entries.filter fun e => e.1 ≠ key

theorem get?_nil (key : κ) : get? ([] : Entries κ α) key = none := rfl

theorem get?_cons (k : κ) (v : α) (rest : Entries κ α) (key : κ) :
    get? ((k, v) :: rest) key = if key = k then some v else get? rest key := by
  by_cases h : key = k
  · simp [get?, h]
  · have hb : (key == k) = false := by simpa using h
    simp [get?, List.lookup_cons, h, hb]

theorem get?_insert (entries : Entries κ α) (key other : κ) (value : α) :
    get? (insert entries key value) other =
      if other = key then some value else get? entries other := by
  induction entries with
  | nil => simp [insert, get?_cons, get?_nil]
  | cons entry rest ih =>
    obtain ⟨k, v⟩ := entry
    by_cases hk : k = key
    · subst hk
      by_cases ho : other = k <;> simp [insert, get?_cons, ho]
    · simp only [insert, hk, if_false, get?_cons, ih]
      by_cases ho : other = k
      · subst ho; simp [hk]
      · simp [ho]

theorem keys_insert (entries : Entries κ α) (key : κ) (value : α) :
    keys (insert entries key value) =
      if key ∈ keys entries then keys entries else keys entries ++ [key] := by
  induction entries with
  | nil => simp [insert, keys]
  | cons entry rest ih =>
    obtain ⟨k, v⟩ := entry
    simp only [keys] at ih
    by_cases hk : k = key
    · simp [insert, keys, hk]
    · have hk' : key ≠ k := fun h => hk h.symm
      simp only [insert, hk, if_false, keys, List.map_cons, ih, List.mem_cons, hk', false_or]
      by_cases hm : key ∈ List.map Prod.fst rest <;> simp [hm]

theorem nodup_keys_insert {entries : Entries κ α} (h : (keys entries).Nodup) (key : κ)
    (value : α) : (keys (insert entries key value)).Nodup := by
  rw [keys_insert]
  split
  · exact h
  · next hk =>
    exact List.nodup_append.2 ⟨h, by simp, fun a ha b hb => by
      rw [List.mem_singleton] at hb; exact fun e => hk (hb ▸ e ▸ ha)⟩

theorem mem_keys_iff {entries : Entries κ α} {key : κ} :
    key ∈ keys entries ↔ ∃ value, get? entries key = some value := by
  induction entries with
  | nil => simp [keys, get?_nil]
  | cons entry rest ih =>
    obtain ⟨k, v⟩ := entry
    by_cases hk : key = k
    · simp [keys, get?_cons, hk]
    · simpa [keys, get?_cons, hk] using ih

theorem mem_of_get? {entries : Entries κ α} {key : κ} {value : α}
    (h : get? entries key = some value) : (key, value) ∈ entries := by
  induction entries with
  | nil => simp [get?_nil] at h
  | cons entry rest ih =>
    obtain ⟨k, v⟩ := entry
    rw [get?_cons] at h
    split at h
    · next hk =>
      obtain rfl := Option.some.inj h
      simp [hk]
    · exact List.mem_cons_of_mem _ (ih h)

theorem get?_of_mem {entries : Entries κ α} (h : (keys entries).Nodup) {entry : κ × α}
    (hm : entry ∈ entries) : get? entries entry.1 = some entry.2 := by
  induction entries with
  | nil => cases hm
  | cons head rest ih =>
    obtain ⟨k, v⟩ := head
    simp only [keys, List.map_cons, List.nodup_cons] at h
    rw [get?_cons]
    rcases List.mem_cons.mp hm with rfl | hrest
    · rw [if_pos rfl]
    · have hne : entry.1 ≠ k := fun he => h.1 (he ▸ List.mem_map_of_mem hrest)
      rw [if_neg hne]
      exact ih h.2 hrest

theorem insert_of_not_mem {entries : Entries κ α} {key : κ} {value : α} (h : key ∉ keys entries) :
    insert entries key value = entries ++ [(key, value)] := by
  induction entries with
  | nil => rfl
  | cons head rest ih =>
    simp only [keys, List.map_cons, List.mem_cons, not_or] at h
    rw [insert, if_neg (Ne.symm h.1), ih h.2, List.cons_append]

theorem mem_insert {entries : Entries κ α} {key : κ} {value : α} {entry : κ × α}
    (h : entry ∈ insert entries key value) : entry = (key, value) ∨ entry ∈ entries := by
  induction entries with
  | nil => exact Or.inl (List.mem_singleton.mp h)
  | cons head rest ih =>
    obtain ⟨k, v⟩ := head
    rw [insert] at h
    split at h
    · next hk =>
      rcases List.mem_cons.mp h with rfl | hrest
      · exact Or.inl (by rw [hk])
      · exact Or.inr (List.mem_cons_of_mem _ hrest)
    · rcases List.mem_cons.mp h with rfl | hrest
      · exact Or.inr List.mem_cons_self
      · exact (ih hrest).imp_right (List.mem_cons_of_mem _)

end Entries

end EnvSpec
