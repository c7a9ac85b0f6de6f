/-!
# Ordered entries

A list of keyed entries in the order in which the keys first came. Writing an entry whose key is
present keeps its position; a new key goes to the end. The order is part of the value, so every
operation says what it does to it.
-/

namespace Folio

/-- Keyed values in order. -/
abbrev Entries (κ α : Type) := List (κ × α)

namespace Entries

variable {κ α : Type} [BEq κ]

/-- The value under a key. -/
def find? (entries : Entries κ α) (key : κ) : Option α :=
  match entries with
  | [] => none
  | (k, v) :: rest => if k == key then some v else find? rest key

/-- Whether a key is present. -/
def has (entries : Entries κ α) (key : κ) : Bool := (find? entries key).isSome

/-- Sets the value under a key, which keeps its position if it is present and is appended
otherwise. -/
def put (entries : Entries κ α) (key : κ) (value : α) : Entries κ α :=
  match entries with
  | [] => [(key, value)]
  | (k, v) :: rest => if k == key then (k, value) :: rest else (k, v) :: put rest key value

/-- Removes the entry under a key. -/
def erase (entries : Entries κ α) (key : κ) : Entries κ α :=
  match entries with
  | [] => []
  | (k, v) :: rest => if k == key then rest else (k, v) :: erase rest key

/-! ## Reading back -/

@[simp] theorem find?_nil (key : κ) : find? ([] : Entries κ α) key = none := rfl

theorem find?_cons (k : κ) (v : α) (rest : Entries κ α) (key : κ) :
    find? ((k, v) :: rest) key = if k == key then some v else find? rest key := rfl

@[simp] theorem find?_put_self [LawfulBEq κ] (entries : Entries κ α) (key : κ) (value : α) :
    find? (put entries key value) key = some value := by
  induction entries with
  | nil => simp [put, find?]
  | cons e rest ih =>
    by_cases h : e.1 == key
    · simp [put, find?, h]
    · simp [put, find?, h, ih]

theorem find?_put_of_ne [LawfulBEq κ] (entries : Entries κ α) {key other : κ} (value : α)
    (h : key ≠ other) : find? (put entries key value) other = find? entries other := by
  induction entries with
  | nil => simp [put, find?, h]
  | cons e rest ih =>
    by_cases hk : e.1 == key
    · have : e.1 = key := by simpa using hk
      simp [put, find?, this, h]
    · simp [put, find?, hk, ih]

theorem find?_erase_of_ne [LawfulBEq κ] (entries : Entries κ α) {key other : κ}
    (h : key ≠ other) : find? (erase entries key) other = find? entries other := by
  induction entries with
  | nil => rfl
  | cons e rest ih =>
    by_cases hk : e.1 == key
    · have : e.1 = key := by simpa using hk
      simp [erase, find?, this, h]
    · simp [erase, find?, hk, ih]

/-- Entries behind those that hold a key do not matter for it. -/
theorem find?_append_of_some {entries more : Entries κ α} {key : κ} {value : α}
    (h : find? entries key = some value) : find? (entries ++ more) key = some value := by
  induction entries with
  | nil => cases h
  | cons e rest ih =>
    rw [List.cons_append, find?_cons]
    rw [find?_cons] at h
    split at h
    · rename_i hk
      rw [if_pos hk, h]
    · rename_i hk
      rw [if_neg hk, ih h]

/-- What is not found is no key of the entries. -/
theorem find?_eq_none [LawfulBEq κ] {entries : Entries κ α} {key : κ} :
    find? entries key = none ↔ key ∉ entries.map Prod.fst := by
  induction entries with
  | nil => simp
  | cons e rest ih =>
    by_cases hk : e.1 == key
    · have : e.1 = key := by simpa using hk
      simp [find?, this]
    · have : key ≠ e.1 := fun h => hk (by simp [h])
      simp [find?, hk, ih, this]

/-- A present key keeps its position and a new one goes to the end. -/
theorem map_fst_put [LawfulBEq κ] (entries : Entries κ α) (key : κ) (value : α) :
    (put entries key value).map Prod.fst =
      if has entries key then entries.map Prod.fst else entries.map Prod.fst ++ [key] := by
  induction entries with
  | nil => simp [put, has]
  | cons e rest ih =>
    by_cases hk : e.1 == key
    · simp [put, has, find?, hk]
    · simp only [has] at ih
      by_cases hr : (find? rest key).isSome
      · simp [put, has, find?, hk, ih, hr]
      · simp [put, has, find?, hk, ih, hr]

/-- A new key comes at the end. -/
theorem put_of_absent {entries : Entries κ α} {key : κ} (value : α)
    (absent : find? entries key = none) : put entries key value = entries ++ [(key, value)] := by
  induction entries with
  | nil => rfl
  | cons e rest ih =>
    rw [find?_cons] at absent
    split at absent
    · cases absent
    · rename_i other
      rw [put, if_neg other, ih absent, List.cons_append]

/-! ## Keys that occur once -/

theorem mem_of_find? [LawfulBEq κ] {entries : Entries κ α} {key : κ} {value : α}
    (h : find? entries key = some value) : (key, value) ∈ entries := by
  induction entries with
  | nil => cases h
  | cons e rest ih =>
    rw [find?_cons] at h
    split at h
    · rename_i hk
      cases h
      rw [← eq_of_beq hk]
      exact List.mem_cons_self
    · exact List.mem_cons_of_mem _ (ih h)

/-- Where each key occurs once, an entry is found under its key. -/
theorem find?_of_mem [LawfulBEq κ] {entries : Entries κ α} {e : κ × α}
    (h : (entries.map Prod.fst).Nodup) (he : e ∈ entries) : find? entries e.1 = some e.2 := by
  induction entries with
  | nil => cases he
  | cons f rest ih =>
    rw [List.map_cons, List.nodup_cons] at h
    rw [find?_cons]
    rcases List.mem_cons.1 he with rfl | he
    · rw [if_pos (beq_self_eq_true _)]
    · have ne : f.1 ≠ e.1 := fun eq => h.1 (eq ▸ List.mem_map_of_mem he)
      rw [if_neg (by simpa using ne)]
      exact ih h.2 he

/-- An entry after a write holds the new value, or was there before. -/
theorem mem_put {entries : Entries κ α} {key : κ} {value : α} {e : κ × α}
    (h : e ∈ put entries key value) : e.2 = value ∨ e ∈ entries := by
  induction entries with
  | nil =>
    rw [put, List.mem_singleton] at h
    exact .inl (by rw [h])
  | cons f rest ih =>
    rw [put] at h
    split at h
    · rcases List.mem_cons.1 h with rfl | h
      · exact .inl rfl
      · exact .inr (List.mem_cons_of_mem _ h)
    · rcases List.mem_cons.1 h with rfl | h
      · exact .inr List.mem_cons_self
      · exact (ih h).imp id (List.mem_cons_of_mem _)

theorem erase_sublist (entries : Entries κ α) (key : κ) : (erase entries key).Sublist entries := by
  induction entries with
  | nil => exact .slnil
  | cons e rest ih =>
    rw [erase]
    split
    · exact List.sublist_cons_self _ _
    · exact ih.cons_cons e

theorem nodup_put [LawfulBEq κ] {entries : Entries κ α} (h : (entries.map Prod.fst).Nodup)
    (key : κ) (value : α) : ((put entries key value).map Prod.fst).Nodup := by
  rw [map_fst_put]
  split
  · exact h
  · rename_i absent
    refine List.nodup_append.2 ⟨h, by simp, ?_⟩
    intro a ha b hb eq
    rw [List.mem_singleton] at hb
    subst eq hb
    refine find?_eq_none.1 ?_ ha
    simpa [has] using absent

theorem nodup_erase {entries : Entries κ α} (h : (entries.map Prod.fst).Nodup) (key : κ) :
    ((erase entries key).map Prod.fst).Nodup :=
  h.sublist ((erase_sublist entries key).map _)

/-- Where each key occurs once, an erased one is gone and the others stay. -/
theorem map_fst_erase [LawfulBEq κ] {entries : Entries κ α} (h : (entries.map Prod.fst).Nodup)
    (key : κ) : (erase entries key).map Prod.fst = (entries.map Prod.fst).filter (· != key) := by
  induction entries with
  | nil => rfl
  | cons e rest ih =>
    rw [List.map_cons, List.nodup_cons] at h
    rw [erase]
    by_cases hk : e.1 = key
    · rw [if_pos (by simp [hk]), List.map_cons, List.filter_cons_of_neg (by simp [hk])]
      refine (List.filter_eq_self.2 fun k mem => ?_).symm
      simpa using fun eq : k = key => h.1 (hk.trans eq.symm ▸ mem)
    · rw [if_neg (by simp [hk]), List.map_cons, List.map_cons, ih h.2,
        List.filter_cons_of_pos (by simp [hk])]

theorem find?_erase_self [LawfulBEq κ] {entries : Entries κ α} (h : (entries.map Prod.fst).Nodup)
    (key : κ) : find? (erase entries key) key = none := by
  induction entries with
  | nil => rfl
  | cons e rest ih =>
    obtain ⟨k, v⟩ := e
    rw [List.map_cons, List.nodup_cons] at h
    rw [erase]
    split
    · rename_i hk
      rw [← eq_of_beq hk]
      exact find?_eq_none.2 h.1
    · rename_i hk
      rw [find?_cons, if_neg hk]
      exact ih h.2

end Entries

end Folio
