import Folio.Command
import Folio.Proofs.Requests
/-!
# Sound stores

The invariant of a store: its rows are in order and their documents settled, each hook is one of a
table that exists, and its locks are sound. Every command keeps it, whether it succeeds or fails and
whatever faults strike, but for those that write a document of the caller as it is.
-/

namespace Folio

open Run

namespace StoreState

/-- Rows in order, hooks of tables that exist, and sound locks. -/
structure Sound (s : StoreState) : Prop where
  rows : s.database.InOrder
  settled : s.database.IsSettled
  hooks : ∀ name ∈ s.hooks.map Prod.fst, (s.database.keyField? name).isSome = true
  names : (s.hooks.map Prod.fst).Nodup
  locks : s.locks.Sound

variable {s t : StoreState}

theorem Sound.empty : StoreState.empty.Sound where
  rows := .empty
  settled := fun _ hr => nomatch hr
  hooks := fun _ hn => nomatch hn
  names := List.nodup_nil
  locks := .empty

/-- Hooks only need their tables to stay. -/
theorem Sound.of_steady (h : s.Sound) (steady : Steady s t) (rows : t.database.InOrder)
    (settled : t.database.IsSettled)
    (tables : ∀ name, (s.database.keyField? name).isSome = true →
      (t.database.keyField? name).isSome = true) : t.Sound where
  rows := rows
  settled := settled
  hooks := fun name hn => tables name (h.hooks name (steady.hooks ▸ hn))
  names := steady.hooks ▸ h.names
  locks := steady.locks h.locks

theorem Sound.of_kept (h : s.Sound) (kept : Kept s t) : t.Sound :=
  h.of_steady kept.steady (kept.database ▸ h.rows) (kept.database ▸ h.settled)
    fun _ hn => kept.database ▸ hn

end StoreState

open StoreState

variable {setup : Setup} {s : StoreState}

/-! ## Tables -/

theorem Session.addTable_ends (table field : String) :
    Ensures setup s (Session.addTable table field) fun r t => Steady s t ∧ match r with
      | .ok () => s.database.addTable? table field = some t.database
      | .error _ => True := by
  refine Ensures.faulty ?_ (fun f _ _ => ⟨steady_tick s, trivial⟩)
    (fun f _ _ _ _ t h => ⟨h.1, trivial⟩)
  refine ensures_get ?_
  rw [tick_database]
  cases ha : s.database.addTable? table field with
  | none => exact ⟨steady_tick s, trivial⟩
  | some db => exact ⟨⟨rfl, rfl, id⟩, rfl⟩

/-- A table is created, or the database stays as it is. -/
theorem Store.createTable_ends (table keyField : Term) :
    Ensures setup s (Store.createTable table keyField) fun _ t => Steady s t ∧
      (t.database = s.database ∨
        ∃ name field, s.database.addTable? name field = some t.database) := by
  have same : ∀ n, Steady s { s with operations := n } ∧ (s.database = s.database ∨
      ∃ name field, s.database.addTable? name field = some s.database) :=
    fun n => ⟨(ticked_operations s n).quiet.kept.steady, .inl rfl⟩
  have fieldName : ∀ t : Term, Reads setup s (Store.fieldName t) fun _ => True := by
    intro t
    unfold Store.fieldName
    split <;> first | exact reads_pure trivial | exact reads_throw
  cases table with
  | scalar scalar =>
    cases scalar with
    | text name =>
      unfold Store.createTable
      dsimp only
      split
      · exact same _
      · refine ensures_read ((fieldName _).bind (fun field n _ => ?_) fun _ n => same n)
        refine Ensures.attempt (Ensures.transaction (fun _ _ _ => same n) ?_)
          (P := fun r t => Steady s t ∧ (t.database = s.database ∨
            ∃ name field, s.database.addTable? name field = some t.database)) ?_
        · refine (Session.addTable_ends name field).mono ?_
          rintro (f | ⟨⟩) t ⟨steady, h⟩
          · exact ⟨IsTrans.trans _ _ _ (same n).1 steady.restored, .inl rfl⟩
          · exact ⟨⟨IsTrans.trans _ _ _ (same n).1 steady, .inr ⟨name, field, h⟩⟩, fun _ _ _ =>
              ⟨IsTrans.trans _ _ _ (same n).1 steady.restored, .inl rfl⟩⟩
        · rintro (f | ⟨⟩) t h
          · dsimp only
            split <;> exact h
          · exact h
    | _ => exact same _
  | _ => exact same _

theorem Session.removeTable_ends (table : String) :
    Ensures setup s (Session.removeTable table) fun r t => Steady s t ∧ match r with
      | .ok n => t.database = s.database.removeTable table ∧
        (n = 0 → s.database.keyField? table = none)
      | .error _ => True := by
  refine Ensures.faulty ?_ (fun f _ _ => ⟨steady_tick s, trivial⟩)
    (fun f _ _ _ _ t h => ⟨h.1, trivial⟩)
  refine ensures_get (ensures_modify ⟨⟨rfl, rfl, id⟩, rfl, fun h => ?_⟩)
  rw [tick_database] at h
  cases hk : s.database.keyField? table with
  | none => rfl
  | some field => rw [hk] at h; cases h

namespace StoreState

theorem Sound.createTable (h : s.Sound) (table keyField : Term) :
    Ensures setup s (Store.createTable table keyField) fun _ t => t.Sound := by
  refine (Store.createTable_ends table keyField).mono ?_
  rintro r t ⟨steady, hdb | ⟨name, field, ha⟩⟩
  · exact h.of_kept ⟨steady, hdb⟩
  · have rows : t.database.rows = s.database.rows ∧
        t.database.tables = s.database.tables ++ [(name, field)] := by
      unfold Database.addTable? at ha
      split at ha
      · cases ha
      · rw [← Option.some.inj ha]
        exact ⟨rfl, rfl⟩
    refine h.of_steady steady (h.rows.addTable ha) ?_ fun other ho => ?_
    · intro r hr
      exact h.settled r (rows.1 ▸ hr)
    · obtain ⟨f, hf⟩ := Option.isSome_iff_exists.1 ho
      unfold Database.keyField?
      rw [rows.2, Entries.find?_append_of_some hf]
      rfl

/-- A table goes with its rows and its hook. -/
theorem Sound.dropTable (h : s.Sound) (table : String) :
    Ensures setup s (Store.dropTable table) fun _ t => t.Sound := by
  have removed : Ensures setup s (Run.session (Session.removeTable table)) fun r t =>
      match r with
      | .ok n => Steady s t ∧ t.database = s.database.removeTable table ∧
        (n = 0 → s.database.keyField? table = none)
      | .error _ => Kept s t := by
    refine Ensures.reporting (Ensures.transaction (fun _ _ _ => refl s)
      ((Session.removeTable_ends table).mono ?_))
    rintro (f | n) t ⟨steady, hn⟩
    · exact ⟨steady.restored, rfl⟩
    · exact ⟨⟨steady, hn⟩, fun _ _ _ => ⟨steady.restored, rfl⟩⟩
  -- The other tables keep their key fields.
  have others : ∀ name, name ≠ table → (s.database.keyField? name).isSome = true →
      ((s.database.removeTable table).keyField? name).isSome = true := by
    intro name ne hn
    unfold Database.keyField? Database.removeTable
    rw [Entries.find?_erase_of_ne _ ne.symm]
    exact hn
  have settled : (s.database.removeTable table).IsSettled := fun r hr =>
    h.settled r (List.mem_filter.1 hr).1
  refine removed.bind ?_ (fun f t kept => h.of_kept kept)
  rintro n t ⟨steady, hdb, hn⟩
  have rows : t.database.InOrder := hdb ▸ h.rows.removeTable
  split
  · -- There was no such table, so no hook is one of it.
    rename_i zero
    suffices sound : t.Sound from sound
    refine Sound.mk rows (hdb ▸ settled) ?_ (steady.hooks ▸ h.names) (steady.locks h.locks)
    intro name hm
    rw [steady.hooks] at hm
    have present := h.hooks name hm
    rw [hdb]
    refine others name (fun eq => ?_) present
    rw [eq, hn zero] at present
    cases present
  · suffices sound : Sound { t with hooks := Entries.erase t.hooks table } from sound
    refine Sound.mk rows (hdb ▸ settled) ?_ ?_ (steady.locks h.locks)
    · intro name hm
      replace hm : name ∈ (Entries.erase t.hooks table).map Prod.fst := hm
      rw [steady.hooks] at hm
      have old := ((Entries.erase_sublist s.hooks table).map Prod.fst).subset hm
      show (t.database.keyField? name).isSome = true
      rw [hdb]
      refine others name (fun eq => ?_) (h.hooks name old)
      subst eq
      exact Entries.find?_eq_none.1 (Entries.find?_erase_self h.names name) hm
    · show ((Entries.erase t.hooks table).map Prod.fst).Nodup
      rw [steady.hooks]
      exact Entries.nodup_erase h.names table

/-- A hook is only installed for a table that exists. -/
theorem Sound.setHook (h : s.Sound) (table : String) (hook : Term) :
    Ensures setup s (Store.setHook table hook) fun _ t => t.Sound := by
  have ticked : ∀ n, Sound { s with operations := n } :=
    fun n => h.of_kept (ticked_operations s n).quiet.kept
  refine (Store.keyField_reads table).bind (fun field n hf => ensures_get ?_) fun _ n => ticked n
  have erased : Sound { s with operations := n, hooks := Entries.erase s.hooks table } :=
    ⟨h.rows, h.settled, fun name hn => h.hooks name
      (((Entries.erase_sublist s.hooks table).map Prod.fst).subset hn),
      Entries.nodup_erase h.names table, h.locks⟩
  have put : ∀ f, Sound { s with operations := n, hooks := Entries.put s.hooks table f } := by
    intro f
    refine ⟨h.rows, h.settled, fun name hn => ?_, Entries.nodup_put h.names table f, h.locks⟩
    replace hn : name ∈ (Entries.put s.hooks table f).map Prod.fst := hn
    rw [Entries.map_fst_put] at hn
    split at hn
    · exact h.hooks name hn
    · rcases List.mem_append.1 hn with hn | hn
      · exact h.hooks name hn
      · rw [List.mem_singleton.1 hn]
        exact Option.isSome_of_eq_some hf
  dsimp only
  split
  · exact ensures_modify erased
  · split
    · exact ensures_modify (put _)
    · exact ticked n

/-! ## Requests -/

/-- A request leaves the store sound, however it ends. -/
theorem Sound.submit (h : s.Sound) (hs : setup.IsSettled) (hp : 0 < setup.pageSize)
    (selector conflict durability returnChanges : Term) {mutation : Term}
    (hm : mutation.IsSettled) :
    Ensures setup s (Writer.submit selector mutation conflict durability returnChanges)
      fun _ t => t.Sound := by
  have moves : Moves Steady (Writer.submit selector mutation conflict durability returnChanges) :=
    Moves.ofExcept.bind fun _ => Writer.mutate_steady _ _ _
  refine ((Writer.submit_ends hp h.rows selector mutation conflict durability returnChanges).and
    moves.ensures).mono ?_
  have landed : ∀ {t : StoreState} {request : Request} {tasks done : List Task}
      {os : List DocumentOutcome}, Steady s t →
      s.database.keyField? request.table = some request.keyField →
        (∀ task ∈ tasks, task.IsSettled) → done ⊆ tasks →
          LandedAll setup request done s.database os t.database → t.Sound := by
    intro t request tasks done os steady hf settled sub landed
    refine h.of_steady steady (landed.inOrder h.rows hf)
      (landed.isSettled hs (fun task ht => settled task (sub ht)) h.settled) fun name hn => ?_
    unfold Database.keyField? at hn ⊢
    rw [landed.tables]
    exact hn
  rintro r t ⟨⟨sel, m, options, -, rfl, -, ended⟩ | ⟨f, rfl, hdb⟩, steady⟩
  · cases r with
    | ok report =>
      obtain ⟨request, tasks, os, plans, all, -⟩ := ended
      exact landed steady plans.field (plans.settled hm) (Writer.inTurn_perm tasks).subset all
    | error f =>
      rcases ended with hdb | ⟨request, tasks, done, os, plans, sub, some, -⟩
      · exact h.of_kept ⟨steady, hdb⟩
      · exact landed steady plans.field (plans.settled hm) sub some
  · exact h.of_kept ⟨steady, hdb⟩

end StoreState

/-! ## Commands -/

namespace SlotAction

/-- Whether an action leaves the document as it is. -/
def isWrite : SlotAction → Bool
  | .write _ => true
  | _ => false

end SlotAction

namespace Command

/-- The command writes documents only by requests, and what it hands in is settled. -/
def IsManaged : Command → Prop
  | .put .. => False
  | .locked _ _ actions => ∀ action ∈ actions, action.isWrite = false
  | .insert _ payload _ _ _ => payload.IsSettled
  | .update _ patch _ _ => patch.IsSettled
  | .mutate _ mutation _ _ _ => mutation.IsSettled
  | _ => True

theorem actAll_quiet (slot : Slot) {actions : List SlotAction}
    (h : ∀ action ∈ actions, action.isWrite = false) : Moves Quiet (actAll slot actions) := by
  induction actions with
  | nil => exact .pure
  | cons action rest ih =>
    have one : Moves Quiet (act slot action) := by
      cases action with
      | read => exact (Slot.read_quiet slot).bind fun _ => .pure
      | write value => exact nomatch h _ List.mem_cons_self
      | locks => exact .get fun _ => .pure
      | raise kind message => exact .throw
    exact one.bind fun _ => (ih fun a ha => h a (List.mem_cons_of_mem _ ha)).bind fun _ => .pure

theorem run_mutate (selector mutation conflict durability returnChanges : Term) :
    run (.mutate selector mutation conflict durability returnChanges) = do
      return .report (← Writer.submit selector mutation conflict durability returnChanges) := by
  simp only [run, Writer.submit, bind_assoc]

/-- Every managed command leaves the store sound. -/
theorem run_sound (h : s.Sound) (hs : setup.IsSettled) (hp : 0 < setup.pageSize)
    {command : Command} (hc : command.IsManaged) :
    Ensures setup s command.run fun _ t => t.Sound := by
  have answer : ∀ {α : Type} {x : Run α} {f : α → Answer},
      Ensures setup s x (fun _ t => t.Sound) →
        Ensures setup s (do return f (← x)) fun _ t => t.Sound :=
    fun hx => hx.bind (fun _ _ ht => ensures_pure ht) fun _ _ ht => ht
  have browsed : ∀ {α : Type} {x : Run α}, Moves Quiet x → Ensures setup s x fun _ t => t.Sound :=
    fun hx => hx.ensures.mono fun _ _ hb => h.of_kept hb.kept
  cases command with
  | create table field => exact answer (h.createTable table field)
  | drop table => exact answer (h.dropTable table)
  | tables => exact answer (browsed (Store.tableNames_browses browsing_quiet))
  | keyField table => exact answer (browsed (Store.keyField_browses browsing_quiet table))
  | find table key => exact answer (browsed (Store.find?_browses browsing_quiet table key))
  | scan table predicate => exact answer (browsed (Cursor.collect_browses browsing_quiet _ _))
  | keys table => exact answer (browsed (Store.keys_browses browsing_quiet table))
  | put table key value => exact hc.elim
  | insert target payload conflict durability returnChanges =>
    exact answer (h.submit hs hp _ _ _ _ hc)
  | update target patch durability returnChanges => exact answer (h.submit hs hp _ _ _ _ hc)
  | delete target durability returnChanges => exact answer (h.submit hs hp _ _ _ _ trivial)
  | mutate selector mutation conflict durability returnChanges =>
    rw [run_mutate]
    exact answer (h.submit hs hp _ _ _ _ hc)
  | setHook table hook => exact answer (h.setHook table hook)
  | getHook table =>
    exact answer (browsed ((Store.keyField_browses browsing_quiet table).bind
      fun _ => .get fun _ => .pure))
  | locks => exact browsed (.get fun _ => .pure)
  | locked table key actions =>
    refine answer ((Store.locked_kept fun slot => ?_).ensures.mono fun _ _ hk => h.of_kept hk)
    exact kept_of_quiet (actAll_quiet slot hc)
  | addFault fault => exact ensures_modify ⟨h.rows, h.settled, h.hooks, h.names, h.locks⟩
  | clearFaults => exact ensures_modify ⟨h.rows, h.settled, h.hooks, h.names, h.locks⟩
  | metrics => exact browsed (.get fun _ => .pure)

end Command

end Folio
