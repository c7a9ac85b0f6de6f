import Folio.Store.Locks
/-!
# Sound locks

The invariant of the lock table: each lock object in use is older than the next new one, each entry
counts a holder, and no two entries guard the same key. A key is free if the object in its entry is
not held; a new object never is. Whoever comes and goes, whether he got the lock of his key or not,
leaves every key as free or as held as it was.
-/

namespace Folio

namespace LockTable

/-- The objects in use are older than the next one, and each key has one entry, with a holder. -/
structure Sound (t : LockTable) : Prop where
  held : ∀ object ∈ t.held, object < t.next
  entries : ∀ e ∈ t.entries, e.2.object < t.next
  users : ∀ e ∈ t.entries, 0 < e.2.users
  keys : (t.entries.map Prod.fst).Nodup

/-- Nobody holds the lock of a key. -/
def IsFree (t : LockTable) (identity : LockIdentity) : Prop :=
  ∀ e, Entries.find? t.entries identity = some e → e.object ∉ t.held

variable {t u : LockTable} {identity other : LockIdentity} {object : Nat}

theorem Sound.empty : LockTable.empty.Sound := by
  constructor <;> simp [LockTable.empty]

/-! ## Steps of a holder -/

theorem Sound.checkOut (h : t.Sound) (identity : LockIdentity) :
    (t.checkOut identity).2.Sound ∧ (t.checkOut identity).1 < (t.checkOut identity).2.next := by
  unfold LockTable.checkOut
  cases hf : Entries.find? t.entries identity with
  | some e =>
    have old : e.object < t.next := h.entries _ (Entries.mem_of_find? hf)
    refine ⟨⟨h.held, fun f hm => ?_, fun f hm => ?_, Entries.nodup_put h.keys _ _⟩, old⟩
    · rcases Entries.mem_put hm with hv | hm
      · rw [hv]
        exact old
      · exact h.entries f hm
    · rcases Entries.mem_put hm with hv | hm
      · rw [hv]
        exact Nat.succ_pos _
      · exact h.users f hm
  | none =>
    refine ⟨⟨fun o ho => ?_, fun f hm => ?_, fun f hm => ?_, Entries.nodup_put h.keys _ _⟩,
      Nat.lt_succ_self _⟩
    · exact Nat.lt_succ_of_lt (h.held o ho)
    · rcases Entries.mem_put hm with hv | hm
      · rw [hv]
        exact Nat.lt_succ_self _
      · exact Nat.lt_succ_of_lt (h.entries f hm)
    · rcases Entries.mem_put hm with hv | hm
      · rw [hv]
        exact Nat.one_pos
      · exact h.users f hm

theorem Sound.acquire? (h : t.Sound) (ho : object < t.next) (ha : t.acquire? object = some u) :
    u.Sound := by
  unfold LockTable.acquire? at ha
  split at ha
  · cases ha
  · cases ha
    refine ⟨fun o hm => ?_, h.entries, h.users, h.keys⟩
    rcases List.mem_cons.1 hm with rfl | hm
    · exact ho
    · exact h.held o hm

theorem Sound.release (h : t.Sound) (object : Nat) : (t.release object).Sound :=
  ⟨fun o hm => h.held o (List.mem_filter.1 hm).1, h.entries, h.users, h.keys⟩

theorem Sound.checkIn (h : t.Sound) (identity : LockIdentity) : (t.checkIn identity).Sound := by
  unfold LockTable.checkIn checkIn?
  cases hf : Entries.find? t.entries identity with
  | none => exact h
  | some e =>
    dsimp only
    split
    · have left := (Entries.erase_sublist t.entries identity).subset
      exact ⟨h.held, fun f hm => h.entries f (left hm), fun f hm => h.users f (left hm),
        Entries.nodup_erase h.keys _⟩
    · rename_i more
      refine ⟨h.held, fun f hm => ?_, fun f hm => ?_, Entries.nodup_put h.keys _ _⟩
      · rcases Entries.mem_put hm with hv | hm
        · rw [hv]
          exact h.entries _ (Entries.mem_of_find? hf)
        · exact h.entries f hm
      · rcases Entries.mem_put hm with hv | hm
        · rw [hv]
          simp only
          omega
        · exact h.users f hm

theorem Sound.finish (h : t.Sound) (hold : Hold) : (t.finish hold).Sound :=
  (h.release hold.object).checkIn hold.identity

/-! ## Free keys -/

/-- The object that is checked out for a free key can be acquired. -/
theorem IsFree.not_held (h : t.IsFree identity) (hs : t.Sound) :
    (t.checkOut identity).1 ∉ (t.checkOut identity).2.held := by
  unfold checkOut
  cases hf : Entries.find? t.entries identity with
  | some e => exact h e hf
  | none =>
    intro hm
    exact Nat.lt_irrefl _ (hs.held _ hm)

theorem find?_checkOut (t : LockTable) (identity : LockIdentity) :
    ∃ users, Entries.find? (t.checkOut identity).2.entries identity =
      some ⟨(t.checkOut identity).1, users⟩ := by
  unfold checkOut
  split
  · exact ⟨_, Entries.find?_put_self _ _ _⟩
  · exact ⟨_, Entries.find?_put_self _ _ _⟩

theorem find?_checkOut_of_ne (t : LockTable) (h : identity ≠ other) :
    Entries.find? (t.checkOut identity).2.entries other = Entries.find? t.entries other := by
  unfold checkOut
  split
  · exact Entries.find?_put_of_ne _ _ h
  · exact Entries.find?_put_of_ne _ _ h

theorem find?_checkIn_of_ne (t : LockTable) (h : identity ≠ other) :
    Entries.find? (t.checkIn identity).entries other = Entries.find? t.entries other := by
  unfold checkIn checkIn?
  split
  · split
    · exact Entries.find?_erase_of_ne _ h
    · exact Entries.find?_put_of_ne _ _ h
  · rfl

@[simp] theorem held_checkIn (t : LockTable) (identity : LockIdentity) :
    (t.checkIn identity).held = t.held := by
  unfold checkIn checkIn?
  split
  · split <;> rfl
  · rfl

@[simp] theorem held_checkOut (t : LockTable) (identity : LockIdentity) :
    (t.checkOut identity).2.held = t.held := by
  unfold checkOut
  split <;> rfl

/-- After a holder has checked in, the entry of its key has the object it had, if it is left. -/
theorem object_of_checkIn {t : LockTable} {e : LockEntry} {users : Nat} (h : t.Sound)
    (hf : Entries.find? t.entries identity = some ⟨object, users⟩)
    (he : Entries.find? (t.checkIn identity).entries identity = some e) : e.object = object := by
  unfold checkIn checkIn? at he
  rw [hf] at he
  dsimp only at he
  split at he
  · rw [Option.getD_some, Entries.find?_erase_self h.keys] at he
    cases he
  · rw [Option.getD_some, Entries.find?_put_self] at he
    cases he
    rfl

/-- A hold that has ended leaves every free key free, its own key included. -/
theorem IsFree.finish (h : t.IsFree other) (hs : t.Sound)
    (ha : (t.checkOut identity).2.acquire? (t.checkOut identity).1 = some u) :
    (u.finish ⟨identity, (t.checkOut identity).1⟩).IsFree other := by
  obtain ⟨hso, hnext⟩ := hs.checkOut identity
  have hsu : (u.release (t.checkOut identity).1).Sound := (hso.acquire? hnext ha).release _
  have hu : u.entries = (t.checkOut identity).2.entries ∧
      u.held = (t.checkOut identity).1 :: t.held := by
    unfold LockTable.acquire? at ha
    split at ha
    · cases ha
    · cases ha
      exact ⟨rfl, by rw [held_checkOut]⟩
  intro e he hm
  rw [LockTable.finish, held_checkIn] at hm
  obtain ⟨hm, ne⟩ := List.mem_filter.1 hm
  have ne : e.object ≠ (t.checkOut identity).1 := by simpa using ne
  -- Its own entry has the object that was just released, and any other entry is as it was.
  by_cases hid : identity = other
  · subst hid
    obtain ⟨users, hf⟩ := find?_checkOut t identity
    exact ne (object_of_checkIn hsu (hu.1 ▸ hf) he)
  · rw [LockTable.finish, find?_checkIn_of_ne _ hid] at he
    have he : Entries.find? u.entries other = some e := he
    rw [hu.1, find?_checkOut_of_ne t hid] at he
    rw [hu.2] at hm
    exact h e he ((List.mem_cons.1 hm).resolve_left ne)

/-! ## Held keys -/

/-- Whether somebody holds the lock of a key. -/
def isHeld (t : LockTable) (identity : LockIdentity) : Bool :=
  match Entries.find? t.entries identity with
  | some e => t.held.contains e.object
  | none => false

theorem isHeld_eq_false_iff : t.isHeld identity = false ↔ t.IsFree identity := by
  unfold isHeld IsFree
  cases Entries.find? t.entries identity <;> simp

/-- The object that is checked out for a held key is the one that is held. -/
theorem held_of_isHeld (h : t.isHeld identity = true) :
    (t.checkOut identity).1 ∈ (t.checkOut identity).2.held := by
  unfold isHeld at h
  unfold checkOut
  cases hf : Entries.find? t.entries identity with
  | some e =>
    rw [hf] at h
    exact List.contains_iff_mem.1 h
  | none =>
    rw [hf] at h
    cases h

theorem acquire?_of_isHeld (h : t.isHeld identity = true) :
    (t.checkOut identity).2.acquire? (t.checkOut identity).1 = none :=
  if_pos (List.contains_iff_mem.2 (held_of_isHeld h))

/-- A free key is locked by whoever comes. -/
theorem acquire?_of_isFree (hs : t.Sound) (h : t.IsFree identity) :
    (t.checkOut identity).2.acquire? (t.checkOut identity).1 =
      some { (t.checkOut identity).2 with
        held := (t.checkOut identity).1 :: (t.checkOut identity).2.held } :=
  if_neg fun held => h.not_held hs (List.contains_iff_mem.1 held)

/-- Who has waited for a held key in vain leaves all keys as they were. -/
theorem isHeld_checkIn (hs : t.Sound) (h : t.isHeld identity = true) (other : LockIdentity) :
    ((t.checkOut identity).2.checkIn identity).isHeld other = t.isHeld other := by
  by_cases hid : identity = other
  · subst hid
    unfold isHeld at h ⊢
    rw [held_checkIn, held_checkOut]
    cases hf : Entries.find? t.entries identity with
    | none =>
      rw [hf] at h
      cases h
    | some e =>
      have users := hs.users _ (Entries.mem_of_find? hf)
      have again : Entries.find? ((t.checkOut identity).2.checkIn identity).entries identity =
          some ⟨e.object, e.users + 1 - 1⟩ := by
        unfold checkOut checkIn checkIn?
        rw [hf]
        dsimp only
        rw [Entries.find?_put_self]
        dsimp only
        rw [if_neg (by simp only at users; omega), Option.getD_some, Entries.find?_put_self]
      rw [again]
  · unfold isHeld
    rw [held_checkIn, held_checkOut, find?_checkIn_of_ne _ hid, find?_checkOut_of_ne t hid]

/-- Who has held a free key leaves all keys as they were. -/
theorem isHeld_finish (hs : t.Sound) (h : t.IsFree identity)
    (ha : (t.checkOut identity).2.acquire? (t.checkOut identity).1 = some u)
    (other : LockIdentity) :
    (u.finish ⟨identity, (t.checkOut identity).1⟩).isHeld other = t.isHeld other := by
  cases hother : t.isHeld other with
  | false => exact isHeld_eq_false_iff.2 ((isHeld_eq_false_iff.1 hother).finish hs ha)
  | true =>
    have ne : identity ≠ other := by
      rintro rfl
      rw [isHeld_eq_false_iff.2 h] at hother
      cases hother
    have fresh := h.not_held hs
    rw [acquire?_of_isFree hs h] at ha
    cases ha
    -- The held object of the other key is not the one that is released.
    unfold isHeld at hother ⊢
    rw [finish, held_checkIn, find?_checkIn_of_ne _ ne]
    simp only [release, find?_checkOut_of_ne t ne] at fresh ⊢
    cases hf : Entries.find? t.entries other with
    | none =>
      rw [hf] at hother
      cases hother
    | some e =>
      rw [hf] at hother
      have held : e.object ∈ t.held := List.contains_iff_mem.1 hother
      rw [held_checkOut] at fresh ⊢
      have apart : e.object ≠ (t.checkOut identity).1 := fun eq => fresh (eq ▸ held)
      simp [held, apart]

end LockTable

end Folio
