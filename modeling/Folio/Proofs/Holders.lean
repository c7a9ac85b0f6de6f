import Folio.Proofs.Codes
import Folio.Proofs.Locking
import Mathlib.Data.List.Perm.Basic
/-!
# Holders of locks

Any number of holders at a time, each between check-out and check-in of a key, and all of their
steps in any order. What carries the proof is one invariant of a table and its holders: an entry has
the object that all holders of its key have and counts them, no two keys have one object, and the
objects held are those of the holders that have acquired. So a key is held by one holder at most,
whoever leaves finds the entry of the key, and the table is empty once all have left.
-/

namespace Folio

/-- How far a holder has come between check-out and check-in. -/
inductive Stage where
  /-- The holder waits for the lock object. -/
  | waiting
  | holding
  /-- The holder has given up or released, and has to check in. -/
  | leaving
  deriving DecidableEq

/-- A holder of a key, from check-out on. -/
structure Holder extends Hold where
  stage : Stage
  deriving DecidableEq

/-- A lock table with its holders, whose order means nothing. -/
structure Contention where
  locks : LockTable
  holders : List Holder

namespace Contention

/-- The table without entries and holders. -/
def start : Contention := ⟨.empty, []⟩

/-- The number of holders of a key. -/
def usersOf (holders : List Holder) (identity : LockIdentity) : Nat :=
  holders.countP fun p => p.identity = identity

/-- The objects of the holders that have acquired theirs. -/
def objects (holders : List Holder) : List Nat :=
  (holders.filter fun p => p.stage = .holding).map fun p => p.object

/-- One atomic step of one holder. -/
inductive Step : Contention → Contention → Prop
  | checkOut {s : Contention} (table : String) {code : String} {key : Term}
      (coded : key.encodeKey = .ok code) :
      Step s ⟨(s.locks.checkOut (table, code)).2,
        ⟨⟨(table, code), (s.locks.checkOut (table, code)).1⟩, .waiting⟩ :: s.holders⟩
  | acquire {s : Contention} {hold : Hold} {rest : List Holder} {locks : LockTable}
      (chosen : s.holders.Perm (⟨hold, .waiting⟩ :: rest))
      (taken : s.locks.acquire? hold.object = some locks) : Step s ⟨locks, ⟨hold, .holding⟩ :: rest⟩
  | timeOut {s : Contention} {hold : Hold} {rest : List Holder}
      (chosen : s.holders.Perm (⟨hold, .waiting⟩ :: rest)) :
      Step s ⟨s.locks, ⟨hold, .leaving⟩ :: rest⟩
  | release {s : Contention} {hold : Hold} {rest : List Holder}
      (chosen : s.holders.Perm (⟨hold, .holding⟩ :: rest)) :
      Step s ⟨s.locks.release hold.object, ⟨hold, .leaving⟩ :: rest⟩
  | checkIn {s : Contention} {hold : Hold} {rest : List Holder} {locks : LockTable}
      (chosen : s.holders.Perm (⟨hold, .leaving⟩ :: rest))
      (found : s.locks.checkIn? hold.identity = some locks) : Step s ⟨locks, rest⟩

/-- What any interleaving of steps leads to. -/
inductive Reachable : Contention → Prop
  | start : Reachable start
  | step {s t : Contention} : Reachable s → Step s t → Reachable t

/-! ## The invariant -/

/-- Entries, held objects and holders agree. -/
structure Balanced (s : Contention) : Prop where
  sound : s.locks.Sound
  users : ∀ identity, ((Entries.find? s.locks.entries identity).map LockEntry.users).getD 0 =
    usersOf s.holders identity
  object : ∀ p ∈ s.holders, ∀ e, Entries.find? s.locks.entries p.identity = some e →
    e.object = p.object
  apart : ∀ i j e f, Entries.find? s.locks.entries i = some e →
    Entries.find? s.locks.entries j = some f → e.object = f.object → i = j
  held : s.locks.held.Perm (objects s.holders)
  single : s.locks.held.Nodup

variable {s t : Contention} {p : Holder} {rest : List Holder} {locks : LockTable} {hold : Hold}

theorem Balanced.start : start.Balanced := by
  refine ⟨LockTable.Sound.empty, ?_, ?_, ?_, .nil, .nil⟩ <;>
    simp [Contention.start, LockTable.empty, usersOf]

theorem usersOf_cons (p : Holder) (holders : List Holder) (identity : LockIdentity) :
    usersOf (p :: holders) identity =
      usersOf holders identity + if p.identity = identity then 1 else 0 := by
  simp [usersOf, List.countP_cons]

/-- The order of the holders means nothing. -/
theorem Balanced.perm (h : s.Balanced) {holders : List Holder} (hp : s.holders.Perm holders) :
    (Contention.mk s.locks holders).Balanced where
  sound := h.sound
  users identity := (h.users identity).trans (hp.countP_eq _)
  object p hm := h.object p (hp.mem_iff.2 hm)
  apart := h.apart
  held := h.held.trans ((hp.filter _).map _)
  single := h.single

/-- The entry of a key in use has the object of its holders and their number. -/
theorem Balanced.entry (h : s.Balanced) (hp : p ∈ s.holders) :
    Entries.find? s.locks.entries p.identity = some ⟨p.object, usersOf s.holders p.identity⟩ := by
  have some : 0 < usersOf s.holders p.identity := List.countP_pos_iff.2 ⟨p, hp, by simp⟩
  have counted := h.users p.identity
  cases hf : Entries.find? s.locks.entries p.identity with
  | none =>
    rw [hf] at counted
    simp at counted
    omega
  | some e =>
    rw [hf] at counted
    rw [← h.object p hp e hf, ← counted]
    rfl

/-- What is checked out is the object of the key's holders, counted once more, and of no other
key. -/
theorem Balanced.checkedOut (h : s.Balanced) (identity : LockIdentity) :
    Entries.find? (s.locks.checkOut identity).2.entries identity =
        some ⟨(s.locks.checkOut identity).1, usersOf s.holders identity + 1⟩ ∧
      (∀ p ∈ s.holders, p.identity = identity → p.object = (s.locks.checkOut identity).1) ∧
      ∀ j f, identity ≠ j → Entries.find? s.locks.entries j = some f →
        f.object ≠ (s.locks.checkOut identity).1 := by
  have counted := h.users identity
  unfold LockTable.checkOut
  cases hf : Entries.find? s.locks.entries identity with
  | some e =>
    rw [hf] at counted
    refine ⟨?_, fun p hm same => ?_, fun j f ne hj eq => ?_⟩
    · rw [Entries.find?_put_self, ← counted]
      rfl
    · exact (h.object p hm e (same ▸ hf)).symm
    · exact ne (h.apart _ _ _ _ hf hj eq.symm)
  | none =>
    rw [hf] at counted
    refine ⟨?_, fun p hm same => ?_, fun j f ne hj eq => ?_⟩
    · rw [Entries.find?_put_self, ← counted]
      rfl
    · rw [← same, h.entry hm] at hf
      cases hf
    · have old := h.sound.entries _ (Entries.mem_of_find? hj)
      simp only at old eq
      omega

/-- A holder more of a key, with the object that its entry has or with a new one. -/
theorem Balanced.checkOut (h : s.Balanced) (identity : LockIdentity) :
    (Contention.mk (s.locks.checkOut identity).2
      (⟨⟨identity, (s.locks.checkOut identity).1⟩, .waiting⟩ :: s.holders)).Balanced := by
  have others : ∀ other, identity ≠ other →
      Entries.find? (s.locks.checkOut identity).2.entries other =
        Entries.find? s.locks.entries other :=
    fun other ne => LockTable.find?_checkOut_of_ne s.locks ne
  obtain ⟨self, mine, theirs⟩ := h.checkedOut identity
  refine ⟨(h.sound.checkOut identity).1, fun other => ?_, fun p hm e he => ?_,
    fun i j e f hi hj eq => ?_, ?_, ?_⟩
  · rw [usersOf_cons]
    by_cases ne : identity = other
    · subst ne
      rw [self, if_pos rfl]
      rfl
    · rw [others other ne, if_neg ne]
      exact h.users other
  · by_cases ne : identity = p.identity
    · rw [← ne, self, Option.some.injEq] at he
      rcases List.mem_cons.1 hm with rfl | hm
      · rw [← he]
      · rw [← he, mine p hm ne.symm]
    · rw [others _ ne] at he
      rcases List.mem_cons.1 hm with rfl | hm
      · exact absurd rfl ne
      · exact h.object p hm e he
  · by_cases hi' : identity = i <;> by_cases hj' : identity = j
    · rw [← hi', hj']
    · subst hi'
      rw [self, Option.some.injEq] at hi
      rw [others j hj'] at hj
      exact absurd (by rw [← eq, ← hi]) (theirs j f hj' hj)
    · subst hj'
      rw [self, Option.some.injEq] at hj
      rw [others i hi'] at hi
      exact absurd (by rw [eq, ← hj]) (theirs i e hi' hi)
    · rw [others i hi'] at hi
      rw [others j hj'] at hj
      exact h.apart i j e f hi hj eq
  · rw [LockTable.held_checkOut]
    exact h.held
  · rw [LockTable.held_checkOut]
    exact h.single

/-- A holder that goes on to another stage is counted as before. -/
theorem Balanced.turn {before after : Stage}
    (h : (Contention.mk s.locks (⟨hold, before⟩ :: rest)).Balanced) (sound : locks.Sound)
    (entries : locks.entries = s.locks.entries)
    (held : locks.held.Perm (objects (⟨hold, after⟩ :: rest))) (single : locks.held.Nodup) :
    (Contention.mk locks (⟨hold, after⟩ :: rest)).Balanced := by
  refine ⟨sound, fun identity => ?_, fun p hm => ?_, ?_, held, single⟩
  · rw [entries, h.users identity, usersOf_cons, usersOf_cons]
  · rw [entries]
    rcases List.mem_cons.1 hm with rfl | hm
    · exact h.object ⟨hold, before⟩ List.mem_cons_self
    · exact h.object p (List.mem_cons_of_mem _ hm)
  · rw [entries]
    exact h.apart

/-- A holder that acquires adds its object to those that are held. -/
theorem Balanced.acquire (h : (Contention.mk s.locks (⟨hold, .waiting⟩ :: rest)).Balanced)
    (taken : s.locks.acquire? hold.object = some locks) :
    (Contention.mk locks (⟨hold, .holding⟩ :: rest)).Balanced := by
  have old : hold.object < s.locks.next :=
    h.sound.entries _ (Entries.mem_of_find? (h.entry List.mem_cons_self))
  have sound := h.sound.acquire? old taken
  unfold LockTable.acquire? at taken
  split at taken
  · exact nomatch taken
  · rename_i free
    cases taken
    have single : (hold.object :: s.locks.held).Nodup :=
      List.nodup_cons.2 ⟨fun held => free (List.contains_iff_mem.2 held), h.single⟩
    exact h.turn sound rfl (h.held.cons _) single

/-- A release frees the object, which nobody else holds. -/
theorem Balanced.release (h : (Contention.mk s.locks (⟨hold, .holding⟩ :: rest)).Balanced) :
    (Contention.mk (s.locks.release hold.object) (⟨hold, .leaving⟩ :: rest)).Balanced := by
  have held : s.locks.held.Perm (hold.object :: objects rest) := h.held
  have single := List.nodup_cons.1 (held.nodup_iff.1 h.single)
  have left : (objects rest).filter (fun o => o != hold.object) = objects rest :=
    List.filter_eq_self.2 fun o ho => by
      rw [bne_iff_ne]
      rintro rfl
      exact single.1 ho
  have filtered := held.filter fun o => o != hold.object
  rw [List.filter_cons, if_neg (by simp), left] at filtered
  exact h.turn (h.sound.release _) rfl filtered (h.single.filter _)

/-- A holder that leaves finds the entry of its key, which goes with the last holder or counts one
less. -/
theorem Balanced.checkedIn (h : (Contention.mk s.locks (⟨hold, .leaving⟩ :: rest)).Balanced) :
    Entries.find? s.locks.entries hold.identity =
        some ⟨hold.object, usersOf rest hold.identity + 1⟩ ∧
      ∃ locks, s.locks.checkIn? hold.identity = some locks ∧
        Entries.find? locks.entries hold.identity =
          if usersOf rest hold.identity = 0 then none
          else some ⟨hold.object, usersOf rest hold.identity⟩ := by
  have entry : Entries.find? s.locks.entries hold.identity =
      some ⟨hold.object, usersOf rest hold.identity + 1⟩ := by
    rw [h.entry (p := ⟨hold, .leaving⟩) List.mem_cons_self, usersOf_cons, if_pos rfl]
  refine ⟨entry, ?_⟩
  unfold LockTable.checkIn?
  rw [entry]
  dsimp only
  by_cases last : usersOf rest hold.identity = 0
  · rw [if_pos (by omega), if_pos last]
    exact ⟨_, rfl, Entries.find?_erase_self h.sound.keys _⟩
  · rw [if_neg (by omega), if_neg last]
    exact ⟨_, rfl, Entries.find?_put_self ..⟩

/-- A holder that checks in finds the entry of its key, and removes it if it is the last one. -/
theorem Balanced.checkIn (h : (Contention.mk s.locks (⟨hold, .leaving⟩ :: rest)).Balanced) :
    ∃ locks, s.locks.checkIn? hold.identity = some locks ∧ (Contention.mk locks rest).Balanced := by
  obtain ⟨entry, locks, found, self⟩ := h.checkedIn
  have checked : s.locks.checkIn hold.identity = locks := by
    rw [LockTable.checkIn, found, Option.getD_some]
  have sound : locks.Sound := checked ▸ h.sound.checkIn _
  have held : locks.held = s.locks.held := checked ▸ LockTable.held_checkIn _ _
  have others : ∀ other, hold.identity ≠ other →
      Entries.find? locks.entries other = Entries.find? s.locks.entries other := fun other ne =>
    checked ▸ LockTable.find?_checkIn_of_ne s.locks ne
  -- An entry that stays has the object from before; only its count differs.
  have kept : ∀ i e, Entries.find? locks.entries i = some e →
      ∃ f, Entries.find? s.locks.entries i = some f ∧ f.object = e.object := by
    intro i e hi
    by_cases ne : hold.identity = i
    · subst ne
      exact ⟨_, entry, (LockTable.object_of_checkIn h.sound entry (checked ▸ hi)).symm⟩
    · exact ⟨e, others i ne ▸ hi, rfl⟩
  refine ⟨locks, found, sound, fun identity => ?_, fun p hm e he => ?_, fun i j e f hi hj eq => ?_,
    held ▸ h.held, held ▸ h.single⟩
  · by_cases ne : hold.identity = identity
    · subst ne
      rw [self]
      split
      · rename_i none
        rw [none]
        rfl
      · rfl
    · have before := h.users identity
      rw [usersOf_cons, if_neg ne] at before
      rw [others identity ne]
      exact before
  · obtain ⟨f, hf, same⟩ := kept _ _ he
    rw [← same]
    exact h.object p (List.mem_cons_of_mem _ hm) f hf
  · obtain ⟨e', he', same⟩ := kept _ _ hi
    obtain ⟨f', hf', same'⟩ := kept _ _ hj
    exact h.apart i j e' f' he' hf' (by rw [same, same', eq])

theorem Balanced.step (h : s.Balanced) (hs : Step s t) : t.Balanced := by
  cases hs with
  | checkOut table coded => exact h.checkOut _
  | acquire chosen taken => exact (h.perm chosen).acquire taken
  | timeOut chosen =>
    have waiting := h.perm chosen
    exact waiting.turn h.sound rfl waiting.held h.single
  | release chosen => exact (h.perm chosen).release
  | checkIn chosen found =>
    obtain ⟨locks, found', left⟩ := (h.perm chosen).checkIn
    rw [found, Option.some.injEq] at found'
    exact found' ▸ left

theorem Reachable.balanced (h : Reachable s) : s.Balanced := by
  induction h with
  | start => exact Balanced.start
  | step _ hs ih => exact ih.step hs

/-! ## Mutual exclusion -/

/-- A key has an entry exactly as long as it has a holder. -/
theorem Balanced.mem_keys (h : s.Balanced) (identity : LockIdentity) :
    identity ∈ s.locks.entries.map Prod.fst ↔ ∃ p ∈ s.holders, p.identity = identity := by
  constructor
  · intro present
    have counted := h.users identity
    cases hf : Entries.find? s.locks.entries identity with
    | none => exact absurd present (Entries.find?_eq_none.1 hf)
    | some e =>
      have some : 0 < e.users := h.sound.users _ (Entries.mem_of_find? hf)
      rw [hf, Option.map_some, Option.getD_some] at counted
      rw [counted] at some
      obtain ⟨p, hp, same⟩ := List.countP_pos_iff.1 some
      exact ⟨p, hp, of_decide_eq_true same⟩
  · rintro ⟨p, hp, rfl⟩
    exact List.mem_map_of_mem (Entries.mem_of_find? (h.entry hp))

/-- Holders of one key have one object. -/
theorem Balanced.object_eq (h : s.Balanced) {q : Holder} (hp : p ∈ s.holders) (hq : q ∈ s.holders)
    (same : p.identity = q.identity) : p.object = q.object := by
  have entry := h.entry hp
  rw [same, h.entry hq, Option.some.injEq, LockEntry.mk.injEq] at entry
  exact entry.1.symm

/-- No two holders have acquired the lock of one key. -/
theorem Balanced.pairwise (h : s.Balanced) : s.holders.Pairwise fun p q =>
    p.stage = .holding → q.stage = .holding → p.identity ≠ q.identity := by
  have single := h.held.nodup_iff.1 h.single
  rw [objects, List.Nodup, List.pairwise_map, List.pairwise_filter] at single
  refine single.imp_of_mem fun {p q} hp hq apart => ?_
  intro holds holds' same
  exact apart (decide_eq_true holds) (decide_eq_true holds') (h.object_eq hp hq same)

/-- A holder that waits can acquire exactly if nobody holds its key. -/
theorem Balanced.isSome_acquire? (h : s.Balanced) (hp : p ∈ s.holders) :
    (s.locks.acquire? p.object).isSome = true ↔
      ∀ q ∈ s.holders, q.stage = .holding → q.identity ≠ p.identity := by
  have taken : p.object ∈ s.locks.held ↔
      ∃ q ∈ s.holders, q.stage = .holding ∧ q.identity = p.identity := by
    rw [h.held.mem_iff, objects, List.mem_map]
    constructor
    · rintro ⟨q, hq, same⟩
      obtain ⟨hq, holds⟩ := List.mem_filter.1 hq
      refine ⟨q, hq, of_decide_eq_true holds, h.apart _ _ _ _ (h.entry hq) (h.entry hp) same⟩
    · rintro ⟨q, hq, holds, same⟩
      exact ⟨q, List.mem_filter.2 ⟨hq, decide_eq_true holds⟩, h.object_eq hq hp same⟩
  have free : (s.locks.acquire? p.object).isSome = true ↔ p.object ∉ s.locks.held := by
    unfold LockTable.acquire?
    split <;> simp_all
  rw [free, taken]
  simp only [not_exists, not_and, ne_eq]

/-- However many holders there are and however their steps are interleaved: no two of them hold one
key; each has the object of the entry of its key, which counts them and is there while it counts
anyone; a waiting holder can acquire while nobody holds its key; one that leaves finds its entry;
without holders the table is empty. Keys of one table that are the same value are one key here, and
no others are. -/
theorem exclusive (h : Reachable s) :
    (s.holders.Pairwise fun p q =>
      p.stage = .holding → q.stage = .holding → p.identity ≠ q.identity) ∧
    (∀ p ∈ s.holders, ∃ users,
      Entries.find? s.locks.entries p.identity = some ⟨p.object, users⟩) ∧
    (∀ identity, (Entries.find? s.locks.entries identity).map LockEntry.users =
      if 0 < usersOf s.holders identity then some (usersOf s.holders identity) else none) ∧
    (∀ p ∈ s.holders, p.stage = .waiting → ((s.locks.acquire? p.object).isSome = true ↔
      ∀ q ∈ s.holders, q.stage = .holding → q.identity ≠ p.identity)) ∧
    (∀ p ∈ s.holders, p.stage = .leaving → (s.locks.checkIn? p.identity).isSome = true) ∧
    (s.holders = [] → s.locks.size = 0) ∧
    ∀ (table other : String) (a b : Value), a.isAddress = true → b.isAddress = true →
      ∃ c d, a.toTerm.encodeKey = .ok c ∧ b.toTerm.encodeKey = .ok d ∧
        ((table, c) = (other, d) ↔ table = other ∧ a.same b = true) := by
  have balanced := h.balanced
  refine ⟨balanced.pairwise, fun p hp => ⟨_, balanced.entry hp⟩, fun identity => ?_,
    fun p hp _ => balanced.isSome_acquire? hp, fun p hp leaving => ?_, fun none => ?_,
    fun table other a b ha hb => ⟨_, _, a.encodeKey_toTerm, b.encodeKey_toTerm, ?_⟩⟩
  · have counted := balanced.users identity
    cases hf : Entries.find? s.locks.entries identity with
    | none =>
      rw [hf] at counted
      rw [← counted]
      rfl
    | some e =>
      rw [hf] at counted
      have some : 0 < e.users := balanced.sound.users _ (Entries.mem_of_find? hf)
      rw [← counted]
      exact (if_pos some).symm
  · obtain ⟨front, back, split⟩ := List.append_of_mem hp
    obtain ⟨hold, stage⟩ := p
    cases leaving
    have chosen : s.holders.Perm (⟨hold, .leaving⟩ :: (front ++ back)) :=
      split ▸ List.perm_middle
    obtain ⟨locks, found, -⟩ := (balanced.perm chosen).checkIn
    exact Option.isSome_iff_exists.2 ⟨locks, found⟩
  · have empty : s.locks.entries = [] := by
      rw [List.eq_nil_iff_forall_not_mem]
      intro e he
      obtain ⟨p, hp, -⟩ := (balanced.mem_keys e.1).1 (List.mem_map_of_mem he)
      rw [none] at hp
      cases hp
    rw [LockTable.size, empty]
    rfl
  · rw [Prod.mk.injEq, Value.code_eq_iff ha hb]

/-! Three holders: one has acquired the key 1, one waits for it as 1.0, and one has given up on
the text "1". -/

/-- The key 1.0. -/
def wholeKey : Value := .scalar (.number (.float (.finite false (2 ^ 52) 1022 (by decide))))

/-- Three holders of two keys. -/
def contended : Contention where
  locks := ⟨[(("posts", "1"), ⟨0, 2⟩), (("posts", "\"1\""), ⟨1, 1⟩)], [0], 2⟩
  holders := [⟨⟨("posts", "\"1\""), 1⟩, .leaving⟩, ⟨⟨("posts", "1"), 0⟩, .waiting⟩,
    ⟨⟨("posts", "1"), 0⟩, .holding⟩]

theorem reachable_contended : Reachable contended := by
  have integer : (Term.scalar (.number (.int 1))).encodeKey = .ok "1" := by rfl
  have whole : wholeKey.toTerm.encodeKey = .ok "1" := by
    rw [Value.encodeKey_toTerm, show wholeKey.code = "1" by decide +kernel]
  have text : (Term.text "1").encodeKey = .ok "\"1\"" := by rfl
  have first := Reachable.start.step (.checkOut "posts" integer)
  have holds := first.step (.acquire (.refl _) rfl)
  have second := holds.step (.checkOut "posts" whole)
  have third := second.step (.checkOut "posts" text)
  exact third.step (.timeOut (.refl _))

theorem exclusive_contended : Reachable contended ∧
    (contended.locks.acquire? 0).isSome = false ∧
    (Entries.find? contended.locks.entries ("posts", "1")).map LockEntry.users = some 2 ∧
    (contended.locks.checkIn? ("posts", "\"1\"")).isSome = true := by
  obtain ⟨-, -, counted, waits, leaves, -, -⟩ := exclusive reachable_contended
  refine ⟨reachable_contended, ?_, counted _, ?_⟩
  · rw [Bool.eq_false_iff]
    intro free
    exact (waits ⟨⟨("posts", "1"), 0⟩, .waiting⟩ (by decide) rfl).1 free
      ⟨⟨("posts", "1"), 0⟩, .holding⟩ (by decide) rfl rfl
  · exact leaves ⟨⟨("posts", "\"1\""), 1⟩, .leaving⟩ (by decide) rfl

end Contention

end Folio
