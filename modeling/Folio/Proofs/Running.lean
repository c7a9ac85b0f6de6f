import Folio.Proofs.Locking
import Folio.Store.Session
import Mathlib.Order.Defs.Unbundled
/-!
# What computations ensure

A computation *ensures* a condition on its outcome and on the state it leaves. The rules follow the
way computations are put together: one step after the other, attempts, faults and transactions.
Relations between states say what a computation does not touch: it *reads* if it only counts
operations, it *browses* if it also calls functions with one document each and generates keys, it is
*quiet* if it only counts and logs, it *writes* if the database changes besides, it *keeps* a state
if at most locks do, and it is *steady* if both may. Locks stay sound in any case.
-/

namespace Folio

namespace StoreState

/-- Only the number of operations may differ. -/
def Ticked (s t : StoreState) : Prop := ∃ n, t = { s with operations := n }

/-- Only operations, metrics, generated keys and calls may differ; functions were called with one
argument each. -/
structure Browsed (s t : StoreState) : Prop where
  database : t.database = s.database
  hooks : t.hooks = s.hooks
  locks : t.locks = s.locks
  faults : t.faults = s.faults
  calls : ∃ more, t.calls = s.calls ++ more ∧ ∀ call ∈ more, ∃ document, call.arguments = [document]

/-- Only operations, metrics, calls and generated keys may differ. -/
structure Quiet (s t : StoreState) : Prop where
  database : t.database = s.database
  hooks : t.hooks = s.hooks
  locks : t.locks = s.locks
  faults : t.faults = s.faults

/-- The database may differ besides. -/
structure Written (s t : StoreState) : Prop where
  hooks : t.hooks = s.hooks
  locks : t.locks = s.locks
  faults : t.faults = s.faults

/-- The hooks and the faults are the same, and the locks are as sound as before. -/
structure Steady (s t : StoreState) : Prop where
  hooks : t.hooks = s.hooks
  faults : t.faults = s.faults
  locks : s.locks.Sound → t.locks.Sound

/-- The database is the same besides. -/
structure Kept (s t : StoreState) : Prop where
  steady : Steady s t
  database : t.database = s.database

/-- No fault strikes when a transaction is begun or committed. -/
def Connects (s : StoreState) : Prop :=
  ∀ f ∈ s.faults, f.point ≠ .connect ∧ f.point ≠ .commit

instance : IsPreorder StoreState Ticked where
  refl s := ⟨s.operations, rfl⟩
  trans := by
    rintro s _ _ ⟨m, rfl⟩ ⟨n, rfl⟩
    exact ⟨n, rfl⟩

instance : IsPreorder StoreState Browsed where
  refl _ := ⟨rfl, rfl, rfl, rfl, [], (List.append_nil _).symm, fun _ h => nomatch h⟩
  trans := by
    rintro s t u ⟨database, hooks, locks, faults, more, calls, asked⟩
      ⟨database', hooks', locks', faults', more', calls', asked'⟩
    refine ⟨database'.trans database, hooks'.trans hooks, locks'.trans locks,
      faults'.trans faults, more ++ more', ?_, ?_⟩
    · rw [calls', calls, List.append_assoc]
    · intro call hc
      exact (List.mem_append.1 hc).elim (asked call) (asked' call)

instance : IsPreorder StoreState Quiet where
  refl _ := ⟨rfl, rfl, rfl, rfl⟩
  trans _ _ _ h k :=
    ⟨k.database.trans h.database, k.hooks.trans h.hooks, k.locks.trans h.locks,
      k.faults.trans h.faults⟩

instance : IsPreorder StoreState Written where
  refl _ := ⟨rfl, rfl, rfl⟩
  trans _ _ _ h k := ⟨k.hooks.trans h.hooks, k.locks.trans h.locks, k.faults.trans h.faults⟩

instance : IsPreorder StoreState Steady where
  refl _ := ⟨rfl, rfl, id⟩
  trans _ _ _ h k := ⟨k.hooks.trans h.hooks, k.faults.trans h.faults, k.locks ∘ h.locks⟩

instance : IsPreorder StoreState Kept where
  refl s := ⟨refl s, rfl⟩
  trans _ _ _ h k := ⟨IsTrans.trans _ _ _ h.steady k.steady, k.database.trans h.database⟩

variable {s t : StoreState}

theorem ticked_tick (s : StoreState) : Ticked s s.tick := ⟨_, rfl⟩

theorem ticked_operations (s : StoreState) (n : Nat) : Ticked s { s with operations := n } :=
  ⟨n, rfl⟩

theorem Ticked.quiet (h : Ticked s t) : Quiet s t := by
  obtain ⟨n, rfl⟩ := h
  exact ⟨rfl, rfl, rfl, rfl⟩

theorem quiet_tick (s : StoreState) : Quiet s s.tick := (ticked_tick s).quiet

theorem Browsed.quiet (h : Browsed s t) : Quiet s t := ⟨h.database, h.hooks, h.locks, h.faults⟩

theorem browsed_tick (s : StoreState) : Browsed s s.tick :=
  ⟨rfl, rfl, rfl, rfl, [], (List.append_nil _).symm, fun _ h => nomatch h⟩

theorem Browsed.restored (h : Browsed s t) : Browsed s { t with database := s.database } :=
  ⟨rfl, h.hooks, h.locks, h.faults, h.calls⟩

theorem Ticked.restored (h : Ticked s t) : Ticked s { t with database := s.database } := by
  obtain ⟨n, rfl⟩ := h
  exact ⟨n, rfl⟩

theorem Quiet.written (h : Quiet s t) : Written s t := ⟨h.hooks, h.locks, h.faults⟩

theorem Written.steady (h : Written s t) : Steady s t := ⟨h.hooks, h.faults, fun k => h.locks ▸ k⟩

theorem Quiet.kept (h : Quiet s t) : Kept s t :=
  ⟨⟨h.hooks, h.faults, fun k => h.locks ▸ k⟩, h.database⟩

theorem Quiet.restored (h : Quiet s t) : Quiet s { t with database := s.database } :=
  ⟨rfl, h.hooks, h.locks, h.faults⟩

theorem Kept.restored (h : Kept s t) : Kept s { t with database := s.database } :=
  ⟨⟨h.steady.hooks, h.steady.faults, h.steady.locks⟩, rfl⟩

theorem written_tick (s : StoreState) : Written s s.tick := (quiet_tick s).written

theorem steady_tick (s : StoreState) : Steady s s.tick := (written_tick s).steady

theorem Steady.restored (h : Steady s t) : Steady s { t with database := s.database } :=
  ⟨h.hooks, h.faults, h.locks⟩

end StoreState

namespace Run

variable {α β : Type} {setup : Setup} {s : StoreState}
variable {Q : Except Failure β → StoreState → Prop} {P : Except Failure α → StoreState → Prop}

@[simp] theorem exec_map (f : α → β) (x : Run α) :
    (f <$> x).exec setup s = ((x.exec setup s).1.map f, (x.exec setup s).2) := by
  rw [← bind_pure_comp, exec_bind]
  rcases x.exec setup s with ⟨r, t⟩
  cases r <;> rfl

/-- What ends well has gone through its parts. -/
theorem exists_of_exec_bind {x : Run α} {next : α → Run β} {b : β} {t : StoreState}
    (h : (x >>= next).exec setup s = (.ok b, t)) :
    ∃ a u, x.exec setup s = (.ok a, u) ∧ (next a).exec setup u = (.ok b, t) := by
  rw [exec_bind] at h
  generalize x.exec setup s = ended at h ⊢
  obtain ⟨f | a, u⟩ := ended
  · cases h
  · exact ⟨a, u, rfl, h⟩

theorem exists_of_exec_ofExcept {r : Except Failure α} {next : α → Run β} {b : β} {t : StoreState}
    (h : (ofExcept r >>= next).exec setup s = (.ok b, t)) :
    ∃ a, r = .ok a ∧ (next a).exec setup s = (.ok b, t) := by
  obtain ⟨a, u, first, rest⟩ := exists_of_exec_bind h
  rw [exec_ofExcept] at first
  cases first
  exact ⟨a, rfl, rest⟩

/-- A computation goes on where its first part has ended well. -/
theorem exec_bind_ok {x : Run α} {next : α → Run β} {a : α} {t : StoreState}
    (h : x.exec setup s = (.ok a, t)) : (x >>= next).exec setup s = (next a).exec setup t := by
  rw [exec_bind, h]

/-- The outcome of a computation and the state that it leaves satisfy a condition. -/
def Ensures (setup : Setup) (s : StoreState) (x : Run α)
    (Q : Except Failure α → StoreState → Prop) : Prop :=
  Q (x.exec setup s).1 (x.exec setup s).2

theorem Ensures.mono {x : Run β} {P : Except Failure β → StoreState → Prop}
    (h : Ensures setup s x P) (imp : ∀ r t, P r t → Q r t) : Ensures setup s x Q :=
  imp _ _ h

theorem Ensures.and {x : Run α} {more : Except Failure α → StoreState → Prop}
    (h : Ensures setup s x P) (k : Ensures setup s x more) :
    Ensures setup s x fun r t => P r t ∧ more r t := ⟨h, k⟩

/-- One computation after another: the second starts where the first has ended well. -/
theorem Ensures.bind {x : Run α} {next : α → Run β} (hx : Ensures setup s x P)
    (ok : ∀ a t, P (.ok a) t → Ensures setup t (next a) Q)
    (error : ∀ f t, P (.error f) t → Q (.error f) t) :
    Ensures setup s (x >>= next) Q := by
  unfold Ensures at hx ⊢
  rw [exec_bind]
  generalize x.exec setup s = ended at hx ⊢
  obtain ⟨r, t⟩ := ended
  cases r with
  | ok a => exact ok a t hx
  | error f => exact error f t hx

theorem ensures_pure {b : β} (h : Q (.ok b) s) : Ensures setup s (pure b) Q := h

theorem ensures_throw {f : Failure} (h : Q (.error f) s) :
    Ensures setup s (throw f : Run β) Q := h

theorem ensures_ofExcept {r : Except Failure β} (h : Q r s) :
    Ensures setup s (ofExcept r) Q := by
  unfold Ensures
  rw [exec_ofExcept]
  exact h

/-- A finished computation goes on with its answer. -/
theorem ensures_ofExcept_bind {r : Except Failure α} {next : α → Run β}
    (ok : ∀ a, r = .ok a → Ensures setup s (next a) Q)
    (error : ∀ f, r = .error f → Q (.error f) s) :
    Ensures setup s (ofExcept r >>= next) Q := by
  unfold Ensures
  rw [exec_bind, exec_ofExcept]
  cases r with
  | ok a => exact ok a rfl
  | error f => exact error f rfl

/-- The state is read and then used. -/
theorem ensures_get {next : StoreState → Run β} (h : Ensures setup s (next s) Q) :
    Ensures setup s (get >>= next) Q := by
  unfold Ensures
  rw [exec_bind, exec_get]
  exact h

/-- The setup is read and then used. -/
theorem ensures_read {next : Setup → Run β} (h : Ensures setup s (next setup) Q) :
    Ensures setup s (read >>= next) Q := by
  unfold Ensures
  rw [exec_bind, exec_read]
  exact h

/-- The state is changed before the rest. -/
theorem ensures_modify {change : StoreState → StoreState} {next : Unit → Run β}
    (h : Ensures setup (change s) (next ()) Q) :
    Ensures setup s (modify change >>= next) Q := by
  unfold Ensures
  rw [exec_bind, exec_modify]
  exact h

/-- An attempt is followed by what its outcome decides. -/
theorem Ensures.attempt {x : Run α} {next : Except Failure α → Run β} (hx : Ensures setup s x P)
    (step : ∀ r t, P r t → Ensures setup t (next r) Q) :
    Ensures setup s (attempt x >>= next) Q := by
  unfold Ensures
  rw [exec_bind, exec_attempt]
  exact step _ _ hx

/-- A fault may strike instead of the operation, or after it has succeeded. -/
theorem Ensures.faulty {x : Run β} {point : FaultPoint} {key : Option Term}
    (hx : Ensures setup s.tick x Q)
    (before : ∀ f ∈ s.faults, f.strikes point key s.operations → Q (.error f.failure) s.tick)
    (after : ∀ f ∈ s.faults, f.strikes point key s.operations → f.after →
      ∀ b t, Q (.ok b) t → Q (.error f.failure) t) :
    Ensures setup s (faulty point key x) Q := by
  unfold Run.faulty
  refine ensures_get (ensures_modify ?_)
  split
  · exact hx
  · rename_i f hf
    have mem : f ∈ s.faults := List.mem_of_find?_eq_some hf
    have strikes : f.strikes point key s.operations = true := by simpa using List.find?_some hf
    split
    · rename_i late
      exact Ensures.bind hx (fun b t hb => ensures_throw (after f mem strikes late b t hb))
        fun _ _ h => h
    · exact ensures_throw (before f mem strikes)

/-- What strikes is one of the faults. -/
theorem exists_of_strike? {point : FaultPoint} {key : Option Term} {n : Nat} {f : Failure}
    (h : s.strike? point key n = some f) :
    ∃ fault ∈ s.faults, fault.point = point ∧ f = fault.failure := by
  obtain ⟨fault, found, rfl⟩ := Option.map_eq_some_iff.1 h
  have strikes := List.find?_some found
  simp only [Fault.strikes, Bool.and_eq_true, beq_iff_eq] at strikes
  exact ⟨fault, List.mem_of_find?_eq_some found, strikes.1.1, rfl⟩

/-- Where no fault strikes a kind of operation, all of them run. -/
theorem strike?_eq_none {point : FaultPoint} {k : Option Term} {n : Nat}
    (h : ∀ f ∈ s.faults, f.point ≠ point) : s.strike? point k n = none := by
  rw [Option.eq_none_iff_forall_ne_some]
  intro f struck
  obtain ⟨fault, hf, at_point, -⟩ := exists_of_strike? struck
  exact h fault hf at_point

/-- An operation that no fault strikes runs as it is. -/
theorem exec_faulty_of_none {point : FaultPoint} {k : Option Term}
    (h : s.strike? point k s.operations = none) (x : Run β) :
    exec (faulty point k x) setup s = exec x setup s.tick := by
  unfold faulty
  rw [exec_bind, exec_get]
  simp only [Option.map_eq_none_iff.1 h]
  rfl

/-- Without faults an operation runs as it is. -/
theorem exec_faulty_of_nil (h : s.faults = []) (point : FaultPoint) (key : Option Term)
    (x : Run β) : exec (faulty point key x) setup s = exec x setup s.tick :=
  exec_faulty_of_none (strike?_eq_none fun f hf => by
    rw [h] at hf
    cases hf) x

/-- A fault may strike at a point between two operations. -/
theorem ensures_reach {point : FaultPoint} {key : Option Term} {next : Unit → Run β}
    (struck : ∀ f ∈ s.faults, f.point = point → Q (.error f.failure) s)
    (h : Ensures setup s (next ()) Q) : Ensures setup s (reach point key >>= next) Q := by
  unfold Ensures
  rw [exec_bind, exec_reach]
  cases hs : s.strike? point key s.operations with
  | none => exact h
  | some f =>
    obtain ⟨fault, hf, at_point, rfl⟩ := exists_of_strike? hs
    exact struck fault hf at_point

/-- A point where no fault strikes is passed. -/
theorem ensures_pass {point : FaultPoint} {key : Option Term} {next : Unit → Run β}
    (clear : ∀ f ∈ s.faults, f.point ≠ point) (h : Ensures setup s (next ()) Q) :
    Ensures setup s (reach point key >>= next) Q :=
  ensures_reach (fun f hf struck => absurd struck (clear f hf)) h

/-- A transaction ends with what its body wrote, or with the database as it was. It fails if its
body does, or if it cannot be begun or committed. -/
theorem Ensures.transaction {x : Run β} {commits : β → Bool}
    (connect : ∀ f ∈ s.faults, f.point = .connect → Q (.error f.failure) s)
    (hx : Ensures setup s x fun r t => match r with
      | .ok b => Q (.ok b) (if commits b then t else { t with database := s.database }) ∧
        ∀ f ∈ t.faults, f.point = .commit → Q (.error f.failure) { t with database := s.database }
      | .error f => Q (.error f) { t with database := s.database }) :
    Ensures setup s (transaction commits x) Q := by
  unfold Ensures at hx ⊢
  rw [exec_transaction]
  cases hs : s.strike? .connect none s.operations with
  | some f =>
    obtain ⟨fault, hf, at_point, rfl⟩ := exists_of_strike? hs
    exact connect fault hf at_point
  | none =>
    rw [exec_committing]
    generalize x.exec setup s = ended at hx ⊢
    obtain ⟨f | b, t⟩ := ended
    · exact hx
    · obtain ⟨done, uncommitted⟩ := hx
      dsimp only
      cases hs : (if commits b then t.strike? .commit none t.operations else none) with
      | none => exact done
      | some f =>
        obtain ⟨-, struck⟩ := Option.ite_none_right_eq_some.1 hs
        obtain ⟨fault, hf, at_point, rfl⟩ := exists_of_strike? struck
        exact uncommitted fault hf at_point

theorem connects_of_nil (h : s.faults = []) : s.Connects := fun f hf => by
  rw [h] at hf
  cases hf

/-- A transaction that can be begun and committed ends as its body does. -/
theorem exec_transaction_of_connects {x : Run β} {commits : β → Bool} (h : s.Connects)
    (kept : (exec x setup s).2.faults = s.faults) :
    exec (transaction commits x) setup s = match exec x setup s with
      | (.ok b, t) => (.ok b, if commits b then t else { t with database := s.database })
      | (.error f, t) => (.error f, { t with database := s.database }) := by
  rw [exec_transaction, strike?_eq_none fun f hf => (h f hf).1, exec_committing]
  generalize x.exec setup s = ended at kept ⊢
  obtain ⟨f | b, t⟩ := ended
  · rfl
  · have unstruck : t.strike? .commit none t.operations = none :=
      strike?_eq_none fun f hf => (h f (kept ▸ hf)).2
    dsimp only
    rw [unstruck, ite_self]

/-- A database exception is reported as a failure of transport. -/
theorem Ensures.reporting {x : Run β}
    (hx : Ensures setup s x fun r t => match r with
      | .ok b => Q (.ok b) t
      | .error f => Q (.error f.reported) t) :
    Ensures setup s (reporting x) Q := by
  refine Ensures.attempt hx fun r t h => ?_
  cases r with
  | ok b => exact h
  | error f => exact h

/-- A session that can be begun and committed ends as its computation does, except that a failure
undoes what was written and is reported. -/
theorem exec_session (x : Run β) (h : s.Connects) (kept : (exec x setup s).2.faults = s.faults) :
    exec (session x) setup s = match exec x setup s with
      | (.ok b, t) => (.ok b, t)
      | (.error f, t) => (.error f.reported, { t with database := s.database }) := by
  unfold session reporting
  rw [exec_bind, exec_attempt, exec_transaction_of_connects h kept]
  rcases exec x setup s with ⟨_ | _, t⟩ <;> rfl

/-! ## Computations that read -/

/-- Nothing but the number of operations changes, and an answer, if there is one, satisfies a
condition. -/
def Reads (setup : Setup) (s : StoreState) (x : Run α) (P : α → Prop) : Prop :=
  Ensures setup s x fun r t => StoreState.Ticked s t ∧ ∀ a, r = .ok a → P a

section Reads

variable {x : Run α} {P : α → Prop}

theorem Reads.mono {P' : α → Prop} (h : Reads setup s x P) (imp : ∀ a, P a → P' a) :
    Reads setup s x P' :=
  Ensures.mono h fun _ _ hr => ⟨hr.1, fun a ha => imp a (hr.2 a ha)⟩

/-- What can be read from any count of operations can be read where a fault may strike. -/
theorem Reads.faulty (h : Reads setup s.tick x P) (point : FaultPoint) (key : Option Term) :
    Reads setup s (faulty point key x) P := by
  have started := StoreState.ticked_tick s
  refine Ensures.faulty (h.imp_left (trans started)) (fun _ _ _ => ⟨started, fun _ h => nomatch h⟩)
    ?_
  rintro f - - - a t ⟨ht, -⟩
  exact ⟨ht, fun _ h => nomatch h⟩

theorem Reads.session (h : Reads setup s x P) : Reads setup s (session x) P := by
  refine Ensures.reporting (Ensures.transaction (fun _ _ _ => ⟨refl s, fun _ h => nomatch h⟩)
    (Ensures.mono h ?_))
  rintro (f | a) t ⟨ht, ha⟩
  · exact ⟨ht.restored, fun _ h => nomatch h⟩
  · exact ⟨⟨ht, fun b hb => ha b hb⟩, fun _ _ _ => ⟨ht.restored, fun _ h => nomatch h⟩⟩

/-- What is read can be used by a computation that starts with another count of operations. -/
theorem Reads.bind {next : α → Run β} (h : Reads setup s x P)
    (ok : ∀ a n, P a → Ensures setup { s with operations := n } (next a) Q)
    (error : ∀ f n, Q (.error f) { s with operations := n }) :
    Ensures setup s (x >>= next) Q := by
  refine Ensures.bind h ?_ ?_
  · rintro a _ ⟨⟨n, rfl⟩, ha⟩
    exact ok a n (ha a rfl)
  · rintro f _ ⟨⟨n, rfl⟩, -⟩
    exact error f n

/-- One reading after another. -/
theorem Reads.then {next : α → Run β} {P' : β → Prop} (h : Reads setup s x P)
    (ok : ∀ a n, P a → Reads setup { s with operations := n } (next a) P') :
    Reads setup s (x >>= next) P' := by
  refine h.bind (fun a n ha => ?_) fun f n => ⟨⟨n, rfl⟩, fun _ h => nomatch h⟩
  refine Ensures.mono (ok a n ha) ?_
  rintro r _ ⟨⟨m, rfl⟩, hb⟩
  exact ⟨⟨m, rfl⟩, hb⟩

theorem Reads.get {next : StoreState → Run α} (h : Reads setup s (next s) P) :
    Reads setup s (get >>= next) P := ensures_get h

theorem reads_pure {a : α} (h : P a) : Reads setup s (pure a) P :=
  ⟨refl s, fun b hb => by cases hb; exact h⟩

theorem reads_throw {f : Failure} : Reads setup s (throw f : Run α) P :=
  ⟨refl s, fun _ h => nomatch h⟩

theorem reads_ofExcept {r : Except Failure α} (h : ∀ a, r = .ok a → P a) :
    Reads setup s (ofExcept r) P := ensures_ofExcept ⟨refl s, h⟩

end Reads

/-! ## What computations leave alone -/

variable {R : StoreState → StoreState → Prop}

/-- The state before a computation is related to the one after it, whatever the outcome. -/
def Moves (R : StoreState → StoreState → Prop) (x : Run α) : Prop :=
  ∀ setup s, R s (x.exec setup s).2

theorem Moves.ensures {x : Run α} (h : Moves R x) : Ensures setup s x fun _ t => R s t := h setup s

theorem Moves.mono {R' : StoreState → StoreState → Prop} {x : Run α} (h : Moves R x)
    (imp : ∀ s t, R s t → R' s t) : Moves R' x := fun setup s => imp _ _ (h setup s)

theorem Moves.get {next : StoreState → Run β} (h : ∀ s, Moves R (next s)) :
    Moves R (get >>= next) := fun setup s =>
  ensures_get (Q := fun _ t => R s t) (h s setup s)

theorem Moves.read {next : Setup → Run β} (h : ∀ setup, Moves R (next setup)) :
    Moves R (read >>= next) := fun setup s =>
  ensures_read (Q := fun _ t => R s t) (h setup setup s)

theorem Moves.attempt {x : Run α} (h : Moves R x) : Moves R (attempt x) := fun setup s => by
  rw [exec_attempt]
  exact h setup s

section Preorder

variable [IsPreorder StoreState R]

theorem Moves.pure {a : α} : Moves R (pure a : Run α) := fun _ s => refl s

theorem Moves.throw {f : Failure} : Moves R (throw f : Run α) := fun _ s => refl s

theorem Moves.ofExcept {r : Except Failure α} : Moves R (ofExcept r) := fun setup s => by
  rw [exec_ofExcept]
  exact refl s

theorem Moves.bind {x : Run α} {next : α → Run β} (hx : Moves R x) (hn : ∀ a, Moves R (next a)) :
    Moves R (x >>= next) := fun setup s =>
  Ensures.bind (Q := fun _ t => R s t) (hx.ensures (s := s))
    (fun a t h => trans h (hn a setup t)) fun _ _ h => h

theorem Moves.faulty {point : FaultPoint} {key : Option Term} {x : Run α}
    (tick : ∀ s : StoreState, R s s.tick) (h : Moves R x) :
    Moves R (faulty point key x) := fun setup s =>
  Ensures.faulty (Q := fun _ t => R s t) (trans (tick s) (h setup s.tick)) (fun _ _ _ => tick s)
    fun _ _ _ _ _ _ h => h

theorem Moves.reporting {x : Run α} (h : Moves R x) : Moves R (reporting x) :=
  h.attempt.bind fun r => match r with
    | .ok _ => .pure
    | .error _ => .throw

theorem Moves.reach (point : FaultPoint) (key : Option Term) : Moves R (reach point key) :=
  fun setup s => by
    rw [exec_reach]
    exact refl s

/-- A transaction is related as its body is, if putting the database back does not matter. -/
theorem Moves.transaction {x : Run α} {commits : α → Bool} (h : Moves R x)
    (restored : ∀ s t : StoreState, R s t → R s { t with database := s.database }) :
    Moves R (transaction commits x) := fun setup s => by
  refine Ensures.transaction (Q := fun _ t => R s t) (fun _ _ _ => refl s) ?_
  refine Ensures.mono (P := fun _ t => R s t) (h setup s) ?_
  rintro (f | a) t related
  · exact restored s t related
  · refine ⟨?_, fun _ _ _ => restored s t related⟩
    split
    · exact related
    · exact restored s t related

end Preorder

theorem call_quiet (f : FunctionRef) (arguments : List Term) :
    Moves StoreState.Quiet (call f arguments) := fun _ _ => ⟨rfl, rfl, rfl, rfl⟩

/-- A function is called, which only logs the call, and its answer is used. -/
theorem ensures_call {f : FunctionRef} {arguments : List Term}
    {next : Except Failure Term → Run β}
    (h : ∀ calls t, StoreState.Quiet s t →
      Ensures setup t (next (setup.functions calls f arguments)) Q) :
    Ensures setup s (call f arguments >>= next) Q := by
  unfold Ensures
  rw [exec_bind]
  exact h _ _ (call_quiet f arguments setup s)

theorem call_browsed (f : FunctionRef) (document : Term) :
    Moves StoreState.Browsed (call f [document]) := by
  intro setup s
  refine ⟨rfl, rfl, rfl, rfl, [⟨f, [document]⟩], rfl, fun call hc => ?_⟩
  rw [List.mem_singleton.1 hc]
  exact ⟨document, rfl⟩

theorem freshKey_browsed : Moves StoreState.Browsed freshKey := fun _ _ =>
  ⟨rfl, rfl, rfl, rfl, [], (List.append_nil _).symm, fun _ h => nomatch h⟩

theorem observe_quiet (sample : Sample) : Moves StoreState.Quiet (observe sample) :=
  fun _ _ => ⟨rfl, rfl, rfl, rfl⟩

end Run

end Folio
