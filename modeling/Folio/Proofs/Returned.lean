import Folio.Proofs.Holders
import Folio.Proofs.Operating
import Folio.Proofs.Reachability
/-!
# Returned locks

What a command takes from the lock table it gives back, however it ends: by an answer, a failure of
its own, one of a function or hook, or an injected one. The lock table then has one entry for each
key that an explicit hold keeps, and no other. There are two exceptions, both on the way into a
lock. A time that cannot be waited for is refused between check-out and acquisition, and the entry
is left behind; a configuration that names such a time is accepted. And what strikes while the time
of an acquisition is recorded leaves the lock held, by nobody. So the locks of a store are all
returned exactly if the configured time can be waited for and no fault is injected at that point.
-/

namespace Folio

open Run StoreState

namespace Contention

/-- Any number of steps. -/
def Steps : Contention → Contention → Prop := Relation.ReflTransGen Step

theorem Balanced.steps {s t : Contention} (h : s.Balanced) (hs : Steps s t) : t.Balanced := by
  induction hs with
  | refl => exact h
  | tail _ step ih => exact ih.step step

end Contention

open Contention

variable {setup : Setup} {s : StoreState} {holders : List Holder} {α : Type}

/-- No fault strikes while the time of an acquisition is recorded. -/
def StoreState.IsRecorded (s : StoreState) : Prop := ∀ f ∈ s.faults, f.point ≠ .lockMetrics

namespace Store

/-- To lock a key is to check out and acquire. Who does not get the lock gives up and checks in,
unless the time to wait is refused. -/
theorem hold_steps (setup : Setup) (h : Balanced ⟨s.locks, holders⟩) (recorded : s.IsRecorded)
    (table : String) (key timeout : Term) :
    Ensures setup s (hold table key timeout) fun r t => match r with
      | .ok held => Steps ⟨s.locks, holders⟩ ⟨t.locks, ⟨held, .holding⟩ :: holders⟩
      | .error _ => Timeout.check timeout = .ok () →
          Steps ⟨s.locks, holders⟩ ⟨t.locks, holders⟩ := by
  unfold hold Session.codeOf
  cases coded : key.encodeKey with
  | error fault => exact fun _ => .refl
  | ok code =>
    have out : Steps ⟨s.locks, holders⟩ _ := .single (.checkOut table coded)
    have waits := h.checkOut (table, code)
    simp only [pure_bind]
    refine ensures_get ?_
    generalize s.locks.checkOut (table, code) = checkedOut at out waits ⊢
    obtain ⟨object, locks⟩ := checkedOut
    refine ensures_modify ?_
    split
    · rename_i fault refused
      intro accepted
      rw [refused] at accepted
      cases accepted
    · split
      · rename_i acquired taken
        refine ensures_modify (ensures_pass recorded ?_)
        exact out.tail (.acquire (.refl _) taken)
      · -- The holder has waited in vain.
        refine ensures_modify (ensures_pass recorded ?_)
        intro _
        have leaves := waits.step (.timeOut (.refl _))
        obtain ⟨left, found, -⟩ := Balanced.checkIn (s := ⟨locks, _⟩) leaves
        have given := (out.tail (.timeOut (.refl _))).tail (.checkIn (.refl _) found)
        rw [← Option.getD_some (a := left), ← found] at given
        exact given

/-- To end a hold is to release the lock object and check in. -/
theorem release_steps (setup : Setup) {held : Hold} {rest : List Holder}
    (h : Balanced ⟨s.locks, ⟨held, .holding⟩ :: rest⟩) :
    Ensures setup s (release held) fun _ t =>
      Steps ⟨s.locks, ⟨held, .holding⟩ :: rest⟩ ⟨t.locks, rest⟩ := by
  have released := Step.release (s := ⟨s.locks, _⟩) (.refl (⟨held, .holding⟩ :: rest))
  obtain ⟨left, found, -⟩ := Balanced.checkIn (s := ⟨s.locks.release held.object, []⟩)
    (h.step released)
  have given := (Relation.ReflTransGen.single released).tail (.checkIn (.refl _) found)
  rw [← Option.getD_some (a := left), ← found] at given
  exact given

end Store

/-! ## Commands -/

/-- The lock table is in balance with its holders, and acquisitions are recorded. -/
structure Settles (s : StoreState) (holders : List Holder) : Prop where
  balanced : Balanced ⟨s.locks, holders⟩
  recorded : s.IsRecorded

/-- A computation leaves the lock table in balance with the holders that it found. -/
def Returns (setup : Setup) (x : Run α) : Prop :=
  ∀ s holders, Settles s holders → Ensures setup s x fun _ t => Settles t holders

/-- What writes at most leaves the lock table and the faults alone. -/
theorem Settles.written {t : StoreState} (h : Settles s holders) (k : Written s t) :
    Settles t holders :=
  ⟨k.locks ▸ h.balanced, fun f hf => h.recorded f (k.faults ▸ hf)⟩

theorem Settles.steps {t : StoreState} {left : List Holder} (h : Settles s holders)
    (steps : Steps ⟨s.locks, holders⟩ ⟨t.locks, left⟩) (faults : t.faults = s.faults) :
    Settles t left :=
  ⟨h.balanced.steps steps, fun f hf => h.recorded f (faults ▸ hf)⟩

/-- What leaves the locks alone returns them. -/
theorem returns_of_written {x : Run α} (h : Moves Written x) : Returns setup x :=
  fun s _ settles => settles.written (h setup s)

theorem returns_of_quiet {x : Run α} (h : Moves Quiet x) : Returns setup x :=
  returns_of_written (h.mono fun _ _ k => k.written)

theorem Returns.bind {β : Type} {x : Run α} {next : α → Run β} (hx : Returns setup x)
    (hn : ∀ a, Returns setup (next a)) : Returns setup (x >>= next) := fun s holders settles =>
  (hx s holders settles).bind (fun a t h => hn a t holders h) fun _ _ h => h

/-- The work on a locked document returns the lock, if the configured time can be waited for. -/
theorem Store.lockedWhen_returns (waits : Timeout.check setup.config.lockTimeout = .ok ())
    {commits : α → Bool} {table : String} {key : Term} {body : Slot → Run α}
    (h : ∀ slot, Moves Written (body slot)) :
    Returns setup (lockedWhen commits table key body) := by
  intro s holders settles
  have began : Moves Quiet (faulty .locked (some key) (pure ())) := .faulty quiet_tick .pure
  refine Ensures.bind (returns_of_quiet began s holders settles)
    (fun _ t settles => ensures_read ?_) fun _ _ h => h
  have taken := (hold_steps setup settles.balanced settles.recorded table key
    setup.config.lockTimeout).and (hold_kept table key setup.config.lockTimeout).ensures
  refine Ensures.bind taken (fun held u ⟨steps, kept⟩ => ?_) fun _ _ ⟨steps, kept⟩ =>
    settles.steps (steps waits) kept.steady.faults
  have work : Moves Written (transaction commits (body ⟨table, key⟩)) :=
    (h _).transaction fun _ _ k => ⟨k.hooks, k.locks, k.faults⟩
  refine Ensures.attempt (returns_of_written work.reporting u _
    (settles.steps steps kept.steady.faults)) fun result v settles => ?_
  have released := (release_steps setup settles.balanced).and (release_kept held).ensures
  refine Ensures.bind released (fun _ w ⟨steps, kept⟩ => ?_) fun _ _ ⟨steps, kept⟩ =>
    settles.steps steps kept.steady.faults
  exact ensures_ofExcept (settles.steps steps kept.steady.faults)

theorem working_returns (waits : Timeout.check setup.config.lockTimeout = .ok ()) :
    Working fun _ x => Returns setup x where
  pure _ := returns_of_quiet .pure
  bind := .bind
  observe sample := returns_of_quiet (observe_quiet sample)
  mutation table operation status :=
    returns_of_quiet (Writer.observeMutation_quiet table operation status)
  browses h := returns_of_quiet (h _ browsing_quiet)
  attempt h := fun s holders settles => h s holders settles
  hooks _ h := fun s holders settles => ensures_get (h s.hooks s holders settles)
  read h := fun s holders settles => ensures_read (h setup s holders settles)
  target request task := Store.lockedWhen_returns waits fun slot =>
    Commit.attempt_writes writing_written request task slot

namespace Command

/-- Only the locks and the faults are certain to be the same. -/
structure Unlocked (s t : StoreState) : Prop where
  locks : t.locks = s.locks
  faults : t.faults = s.faults

instance : IsPreorder StoreState Unlocked where
  refl _ := ⟨rfl, rfl⟩
  trans _ _ _ h k := ⟨k.locks.trans h.locks, k.faults.trans h.faults⟩

theorem operating_unlocked : Operating fun _ x => Moves Unlocked x :=
  operating_moves (writing_moves (fun _ => ⟨rfl, rfl⟩) (fun _ _ h => ⟨h.locks, h.faults⟩)
    (fun _ _ _ _ => ⟨rfl, rfl⟩) (fun _ _ => ⟨rfl, rfl⟩) fun _ _ _ => ⟨rfl, rfl⟩)
    fun _ _ => ⟨rfl, rfl⟩

/-- Faults are injected at these points only. -/
def InjectsAt (points : FaultPoint → Prop) : Command → Prop
  | .addFault fault => points fault.point
  | _ => True

/-- Every command returns the locks that it takes, unless it injects a fault where the time of an
acquisition is recorded. -/
theorem run_returns (waits : Timeout.check setup.config.lockTimeout = .ok ()) {command : Command}
    (injects : command.InjectsAt (· ≠ .lockMetrics)) : Returns setup command.run := by
  have works := working_returns waits
  cases command.runs with
  | submits _ _ run =>
    rw [run]
    exact works.bind (Submission.submit_works works _) fun _ => works.pure _
  | locks answer _ _ writes run =>
    rw [run]
    exact works.bind (Store.lockedWhen_returns waits (writes _ writing_written)) fun _ =>
      works.pure _
  | operates _ _ operates =>
    intro s holders settles
    have unlocked : Unlocked s _ := operates _ operating_unlocked setup s
    exact ⟨unlocked.locks ▸ settles.balanced,
      fun f hf => settles.recorded f (unlocked.faults ▸ hf)⟩
  | addFault fault =>
    refine fun s holders settles => ⟨settles.balanced, fun f hf => ?_⟩
    rcases List.mem_append.1 hf with old | new
    · exact settles.recorded f old
    · rw [List.mem_singleton.1 new]
      exact injects
  | clearFaults => exact fun s holders settles => ⟨settles.balanced, fun f hf => nomatch hf⟩
  | metrics => exact returns_of_quiet (.get fun _ => .pure)

end Command

/-! ## Explicit holds -/

namespace Entry

/-- An explicit hold names a time that can be waited for. -/
def IsPatient : Entry → Prop
  | .hold _ _ _ timeout => Timeout.check timeout = .ok ()
  | _ => True

/-- Faults are injected at these points only. -/
def InjectsAt (points : FaultPoint → Prop) : Entry → Prop
  | .command c => c.InjectsAt points
  | _ => True

end Entry

namespace Console

/-- The explicit holds that are not released after an entry. A hold whose name is used again is
still one of them. -/
def unreleased (setup : Setup) (c : Console) (live : List Hold) (entry : Entry) : List Hold :=
  match entry, c.step setup entry with
  | .hold name _ _ _, (.ok _, next) => (Entries.find? next.holds name).toList ++ live
  | .release name, _ => (Entries.find? c.holds name).elim live live.erase
  | _, _ => live

/-- A console after any entries, run with one configuration and with faults that are injected at
some points, and the explicit holds that are not released. -/
inductive Session (config : Config) (points : FaultPoint → Prop) : Console → List Hold → Prop
  | start : Session config points .empty []
  | step {c : Console} {live : List Hold} (before : Session config points c live) (setup : Setup)
      (entry : Entry) (configured : setup.config = config) (patient : entry.IsPatient)
      (injects : entry.InjectsAt points) :
      Session config points (c.step setup entry).2 (c.unreleased setup live entry)

/-- The holders of explicit holds. -/
def acquired (live : List Hold) : List Holder := live.map fun held => ⟨held, .holding⟩

variable {c : Console} {live : List Hold} {config : Config} {points : FaultPoint → Prop}
variable {entry : Entry}

/-- The locks are in balance with the explicit holds, of which those with a name are some. -/
structure Accounted (c : Console) (live : List Hold) : Prop where
  settles : Settles c.state (acquired live)
  named : (c.holds.map Prod.snd).Subperm live

theorem put_subperm (holds : Entries String Hold) (name : String) (held : Hold) :
    ((Entries.put holds name held).map Prod.snd).Subperm (held :: holds.map Prod.snd) := by
  induction holds with
  | nil => exact List.Subperm.refl _
  | cons e rest ih =>
    rw [Entries.put]
    split
    · exact ((List.sublist_cons_self _ _).cons_cons held).subperm
    · exact ((List.subperm_cons _).2 ih).trans (List.Perm.swap _ _ _).subperm

theorem erase_perm {holds : Entries String Hold} {name : String} {held : Hold}
    (h : Entries.find? holds name = some held) :
    (holds.map Prod.snd).Perm (held :: (Entries.erase holds name).map Prod.snd) := by
  induction holds with
  | nil => cases h
  | cons e rest ih =>
    rw [Entries.find?_cons] at h
    rw [Entries.erase]
    split at h
    · rename_i same
      cases h
      rw [if_pos same]
      exact List.Perm.refl _
    · rename_i other
      rw [if_neg other]
      exact ((ih h).cons _).trans (List.Perm.swap _ _ _)

theorem Accounted.step (h : Accounted c live)
    (waits : Timeout.check setup.config.lockTimeout = .ok ()) (patient : entry.IsPatient)
    (injects : entry.InjectsAt (· ≠ .lockMetrics)) :
    Accounted (c.step setup entry).2 (c.unreleased setup live entry) := by
  have settles : Settles { c.state with calls := [], generated := 0 } (acquired live) :=
    ⟨h.settles.balanced, h.settles.recorded⟩
  cases entry with
  | command command =>
    exact ⟨Command.run_returns waits injects _ _ settles, h.named⟩
  | openScan name table predicate => exact ⟨settles, h.named⟩
  | pull name count =>
    unfold Console.step execute unreleased
    dsimp only
    split
    · exact ⟨settles, h.named⟩
    · exact ⟨settles, h.named⟩
    · rename_i cursor _
      have pulled := settles.written (pullMany_quiet count cursor setup _).written
      unfold run
      dsimp only
      generalize (pullMany count cursor).exec setup _ = ended at pulled ⊢
      obtain ⟨r, t⟩ := ended
      cases r <;> exact ⟨pulled, h.named⟩
  | hold name table key timeout =>
    have taken := (Store.hold_steps setup settles.balanced settles.recorded table key timeout).and
      (Store.hold_kept table key timeout).ensures
    unfold Ensures at taken
    unfold unreleased Console.step execute run
    dsimp only
    generalize (Store.hold table key timeout).exec setup _ = ended at taken ⊢
    obtain ⟨r, t⟩ := ended
    obtain ⟨steps, kept⟩ := taken
    cases r with
    | error f => exact ⟨settles.steps (steps patient) kept.steady.faults, h.named⟩
    | ok held =>
      dsimp only
      rw [Entries.find?_put_self]
      exact ⟨settles.steps steps kept.steady.faults,
        (put_subperm _ _ _).trans ((List.subperm_cons _).2 h.named)⟩
  | release name =>
    unfold unreleased Console.step execute
    dsimp only
    cases found : Entries.find? c.holds name with
    | none => exact ⟨settles, h.named⟩
    | some held =>
      have named := (erase_perm found).symm.subperm.trans h.named
      have mem : held ∈ live := named.subset List.mem_cons_self
      have chosen : (acquired live).Perm (⟨held, .holding⟩ :: acquired (live.erase held)) :=
        (List.perm_cons_erase mem).map _
      have steps := Store.release_steps setup
        (s := { c.state with calls := [], generated := 0 }) (settles.balanced.perm chosen)
      refine ⟨⟨(settles.balanced.perm chosen).steps steps, settles.recorded⟩, ?_⟩
      have left := named.erase held
      rwa [List.erase_cons_head] at left

theorem Session.accounted (h : Session config points c live)
    (waits : Timeout.check config.lockTimeout = .ok ()) (recorded : ¬ points .lockMetrics) :
    Accounted c live := by
  induction h with
  | start =>
    exact ⟨⟨Balanced.start, fun f hf => nomatch hf⟩, List.Subperm.refl _⟩
  | step _ setup entry configured patient injects ih =>
    refine ih.step (configured ▸ waits) patient ?_
    cases entry with
    | command command =>
      cases command with
      | addFault fault =>
        intro point
        exact recorded (point ▸ injects)
      | _ => trivial
    | _ => trivial

/-- The entries of a lock table in balance with explicit holds are those of their keys. -/
theorem Accounted.entries (h : Accounted c live) :
    (c.state.locks.entries.map Prod.fst).Nodup ∧
      (c.state.locks.entries.map Prod.fst).Perm (live.map Hold.identity) := by
  have keys := h.settles.balanced.sound.keys
  have distinct : (live.map Hold.identity).Nodup := by
    rw [List.Nodup, List.pairwise_map]
    exact (List.pairwise_map.1 h.settles.balanced.pairwise).imp fun apart => apart rfl rfl
  refine ⟨keys, (List.perm_ext_iff_of_nodup keys distinct).2 fun identity => ?_⟩
  rw [h.settles.balanced.mem_keys]
  simp [acquired]

/-- A configuration that names no limit to the time that a lock is waited for. -/
def endless : Config :=
  { Config.standard with lockTimeout := .scalar (.number (.float (.infinite false))) }

theorem check_endless : endless.check = .ok endless := by
  have blank : endless.keyField.isBlank = false := rfl
  have positive : endless.lockTimeout.holds .le (.int 0) = .ok false := by decide +kernel
  have single : endless.maxWorkers.holds .lt (.int 1) = .ok false := by decide +kernel
  simp only [Config.check, Term.againstInt, blank, positive, single]
  rfl

/-- A put to any key. -/
def Entry.put : Entry := .command (.put "t" (.int 1) .null)

/-- A time that cannot be waited for leaves an entry behind at the first put. -/
theorem entries_put (setup : Setup) {fault : TimeoutFault}
    (refused : Timeout.check setup.config.lockTimeout = .error fault) :
    (Console.empty.step setup Entry.put).2.state.locks.entries = [(("t", "1"), ⟨0, 1⟩)] := by
  have coded : Session.codeOf (.int 1) = pure "1" := rfl
  have free : (faulty .locked (some (.int 1)) (pure () : Run Unit)).exec setup
      StoreState.empty = (.ok (), StoreState.empty.tick) := by
    rw [exec_faulty_of_nil rfl, exec_pure]
  simp only [Console.step, execute, run, Entry.put, Command.run, Store.locked, Store.lockedWhen,
    exec_bind, show { Console.empty.state with calls := [], generated := 0 } = StoreState.empty
      from rfl, free, exec_read, Store.hold, coded, exec_pure, exec_get, exec_modify, refused,
    exec_throw]
  rfl

/-- A fault that strikes whenever the time of an acquisition is recorded. -/
def unrecorded : Fault := ⟨.lockMetrics, none, fun _ => true, .runtime, "unrecorded", false⟩

/-- An injection of that fault. -/
def Entry.unrecorded : Entry := .command (.addFault Console.unrecorded)

/-- What strikes while the time of an acquisition is recorded leaves an entry behind at the first
put. -/
theorem entries_put_unrecorded (setup : Setup)
    (waits : Timeout.check setup.config.lockTimeout = .ok ()) :
    ((Console.empty.step setup Entry.unrecorded).2.step setup Entry.put).2.state.locks.entries =
      [(("t", "1"), ⟨0, 1⟩)] := by
  have coded : Session.codeOf (.int 1) = pure "1" := rfl
  let s : StoreState := { StoreState.empty with faults := [unrecorded] }
  have injected : { (Console.empty.step setup Entry.unrecorded).2.state with
      calls := [], generated := 0 } = s := rfl
  have free : (faulty .locked (some (.int 1)) (pure () : Run Unit)).exec setup s =
      (.ok (), s.tick) := by
    rw [exec_faulty_of_none (strike?_eq_none fun f hf => by cases List.mem_singleton.1 hf; decide),
      exec_pure]
  rw [step]
  simp only [execute, run, Entry.put, Command.run, Store.locked, Store.lockedWhen, exec_bind,
    injected, free, exec_read, Store.hold, coded, exec_pure, exec_get, exec_modify, waits]
  rfl

/-- The locks that are taken are returned, whatever is done, exactly if the configured time can be
waited for and no fault is injected where the time of an acquisition is recorded: after every entry,
whether it has answered or failed, the lock table has one entry for each key that an explicit hold
keeps, and no other. -/
theorem locks_returned (config : Config) (points : FaultPoint → Prop) :
    (∀ c live, Session config points c live →
      (c.state.locks.entries.map Prod.fst).Nodup ∧
        (c.state.locks.entries.map Prod.fst).Perm (live.map Hold.identity)) ↔
      Timeout.check config.lockTimeout = .ok () ∧ ¬ points .lockMetrics := by
  refine ⟨fun returned => ?_, fun ⟨waits, recorded⟩ c live h =>
    (h.accounted waits recorded).entries⟩
  let setup : Setup := { Setup.echo with config }
  cases refused : Timeout.check config.lockTimeout with
  | error fault =>
    have put := (@Session.start config points).step setup Entry.put rfl trivial trivial
    have entries := (returned _ _ put).2.length_eq
    rw [List.length_map, entries_put setup refused] at entries
    cases entries
  | ok answer =>
    refine ⟨rfl, fun injected => ?_⟩
    have struck := (@Session.start config points).step setup Entry.unrecorded rfl trivial
      injected
    have put := struck.step setup Entry.put rfl trivial trivial
    have entries := (returned _ _ put).2.length_eq
    rw [List.length_map, entries_put_unrecorded setup refused] at entries
    cases entries

/-- A configuration without a limit is accepted, though its time cannot be waited for: the first put
leaves an entry behind and no hold has been asked for. -/
theorem entries_put_endless :
    endless.check = .ok endless ∧
      (Console.empty.step { Setup.echo with config := endless } Entry.put).2.state.locks.entries =
        [(("t", "1"), ⟨0, 1⟩)] := by
  have tooLarge : Timeout.check endless.lockTimeout = .error .tooLarge := by decide +kernel
  exact ⟨check_endless, entries_put _ tooLarge⟩

end Console

end Folio
