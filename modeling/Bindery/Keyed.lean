/-!
# Keyed lists

A list of pairs in which each key has at most one value. A key keeps its position when its value
changes, and a new key goes to the end.
-/

namespace Bindery.Keyed

variable {κ α : Type} [DecidableEq κ]

/-- The value of a key. -/
def find? (entries : List (κ × α)) (key : κ) : Option α :=
  match entries with
  | [] => none
  | (other, value) :: rest => if other = key then some value else find? rest key

/-- Gives a key a value, in place of an earlier one. -/
def insert (entries : List (κ × α)) (key : κ) (value : α) : List (κ × α) :=
  match entries with
  | [] => [(key, value)]
  | (other, old) :: rest =>
    if other = key then (key, value) :: rest else (other, old) :: insert rest key value

/-- Takes a key away. -/
def erase (entries : List (κ × α)) (key : κ) : List (κ × α) :=
  entries.filter (·.1 ≠ key)

/-- The keys, in their order. -/
def keys (entries : List (κ × α)) : List κ :=
  entries.map (·.1)

/-! ## What is found afterwards -/

theorem find?_insert_self (entries : List (κ × α)) (key : κ) (value : α) :
    find? (insert entries key value) key = some value := by
  induction entries with
  | nil => simp [insert, find?]
  | cons entry rest ih =>
    by_cases h : entry.1 = key <;> simp [insert, find?, h, ih]

theorem find?_insert_of_ne (entries : List (κ × α)) {key other : κ} (value : α) (h : other ≠ key) :
    find? (insert entries key value) other = find? entries other := by
  induction entries with
  | nil => simp [insert, find?, Ne.symm h]
  | cons entry rest ih =>
    by_cases hk : entry.1 = key
    · simp [insert, find?, hk, Ne.symm h]
    · simp [insert, find?, hk, ih]

theorem find?_erase_self (entries : List (κ × α)) (key : κ) :
    find? (erase entries key) key = none := by
  induction entries with
  | nil => rfl
  | cons entry rest ih =>
    by_cases h : entry.1 = key
    · simpa [erase, h] using ih
    · simpa [erase, h, find?] using ih

theorem find?_erase_of_ne (entries : List (κ × α)) {key other : κ} (h : other ≠ key) :
    find? (erase entries key) other = find? entries other := by
  induction entries with
  | nil => rfl
  | cons entry rest ih =>
    by_cases hk : entry.1 = key
    · simpa [erase, hk, find?, Ne.symm h] using ih
    · by_cases ho : entry.1 = other
      · simp [erase, find?, ho, h]
      · simpa [erase, hk, ho, find?] using ih

theorem find?_isSome_iff (entries : List (κ × α)) (key : κ) :
    (find? entries key).isSome ↔ key ∈ keys entries := by
  induction entries with
  | nil => simp [find?, keys]
  | cons entry rest ih =>
    by_cases h : entry.1 = key
    · simp [find?, keys, h]
    · simpa [find?, keys, h, Ne.symm h] using ih

/-! ## The keys afterwards -/

theorem mem_keys_insert (entries : List (κ × α)) (key : κ) (value : α) (other : κ) :
    other ∈ keys (insert entries key value) ↔ other = key ∨ other ∈ keys entries := by
  induction entries with
  | nil => simp [insert, keys]
  | cons entry rest ih =>
    by_cases h : entry.1 = key
    · simp [insert, keys, h]
    · simp only [keys] at ih
      simp only [insert, keys, h, if_false, List.map_cons, List.mem_cons, ih]
      exact or_left_comm

theorem nodup_keys_insert {entries : List (κ × α)} (h : (keys entries).Nodup) (key : κ)
    (value : α) : (keys (insert entries key value)).Nodup := by
  induction entries with
  | nil => simp [insert, keys]
  | cons entry rest ih =>
    obtain ⟨hnot, hrest⟩ := List.nodup_cons.1 h
    by_cases hk : entry.1 = key
    · subst hk
      simpa [insert, keys] using h
    · simp only [insert, hk, if_false, keys, List.map_cons, List.nodup_cons]
      refine ⟨fun hmem => ?_, ih hrest⟩
      rcases (mem_keys_insert rest key value entry.1).1 hmem with heq | hmem
      · exact hk heq
      · exact hnot hmem

theorem nodup_keys_erase {entries : List (κ × α)} (h : (keys entries).Nodup) (key : κ) :
    (keys (erase entries key)).Nodup :=
  h.sublist (List.Sublist.map _ List.filter_sublist)

end Bindery.Keyed
