import Folio.Console
import Folio.Proofs.Soundness
/-!
# Reachable stores

Whatever is done at a console, entry by entry, the store stays sound, as long as documents are
written by requests alone: tables come and go, hooks and faults are set, keys are held and scans
left open, and each entry may be run with other settings and other functions. So in every state that
can be reached each row is found under the code of the key that its document holds.
-/

namespace Folio

open Run StoreState

/-- The entry writes documents only by requests, and what it hands in is settled. -/
def Entry.IsManaged : Entry → Prop
  | .command asked => asked.IsManaged
  | _ => True

/-- A state at the beginning of an entry. -/
def StoreState.fresh (s : StoreState) : StoreState := { s with calls := [], generated := 0 }

namespace Console

/-- The consoles that managed entries lead to from an empty store. -/
inductive Reachable : Console → Prop
  | start : Reachable .empty
  | step {c : Console} {setup : Setup} {entry : Entry} (before : Reachable c)
      (pages : 0 < setup.pageSize) (settled : setup.IsSettled) (managed : entry.IsManaged) :
      Reachable (c.step setup entry).2

theorem pullMany_browses {P : ∀ α : Type, Run α → Prop} (b : Browsing P) (count : Nat)
    (cursor : Cursor) : P _ (pullMany count cursor) := by
  induction count generalizing cursor with
  | zero => exact b.pure _
  | succ count ih =>
    refine b.bind (Cursor.pull_browses b cursor) fun found => ?_
    cases found with
    | none => exact b.pure _
    | some found => exact b.bind (ih found.2) fun rest => b.pure _

theorem pullMany_quiet (count : Nat) (cursor : Cursor) : Moves Quiet (pullMany count cursor) :=
  pullMany_browses browsing_quiet count cursor

variable {c : Console} {setup : Setup}

theorem step_eq (setup : Setup) (c : Console) (entry : Entry) :
    c.step setup entry = execute setup { c with state := c.state.fresh } entry := rfl

theorem step_command (c : Console) (command : Command) :
    c.step setup (.command command) =
      ((command.run.exec setup c.state.fresh).1,
        { c with state := (command.run.exec setup c.state.fresh).2 }) := rfl

theorem state_hold (setup : Setup) (c : Console) (name table : String) (key timeout : Term) :
    (execute setup c (.hold name table key timeout)).2.state =
      ((Store.hold table key timeout).exec setup c.state).2 := by
  unfold execute run
  dsimp only
  generalize (Store.hold table key timeout).exec setup c.state = ended
  obtain ⟨r, t⟩ := ended
  cases r <;> rfl

theorem state_release (setup : Setup) (c : Console) (name : String) :
    (execute setup c (.release name)).2.state = c.state ∨
      ∃ hold, (execute setup c (.release name)).2.state =
        ((Store.release hold).exec setup c.state).2 := by
  unfold execute
  dsimp only
  split
  · rename_i hold _
    exact .inr ⟨hold, rfl⟩
  · exact .inl rfl

theorem state_pull (setup : Setup) (c : Console) (name : String) (count : Nat) :
    (execute setup c (.pull name count)).2.state = c.state ∨
      ∃ cursor, (execute setup c (.pull name count)).2.state =
        ((pullMany count cursor).exec setup c.state).2 := by
  unfold execute run
  dsimp only
  split
  · exact .inl rfl
  · exact .inl rfl
  · rename_i cursor _
    refine .inr ⟨cursor, ?_⟩
    generalize (pullMany count cursor).exec setup c.state = ended
    obtain ⟨r, t⟩ := ended
    cases r <;> rfl

/-- One entry leaves the store sound. -/
theorem execute_sound (h : c.state.Sound) (hs : setup.IsSettled) (hp : 0 < setup.pageSize)
    {entry : Entry} (he : entry.IsManaged) : (execute setup c entry).2.state.Sound := by
  cases entry with
  | command command => exact Command.run_sound h hs hp he
  | hold name table key timeout =>
    rw [state_hold]
    exact h.of_kept (Store.hold_kept table key timeout setup c.state)
  | release name =>
    rcases state_release setup c name with same | ⟨hold, released⟩
    · exact same ▸ h
    · rw [released]
      exact h.of_kept (Store.release_kept hold setup c.state)
  | openScan name table predicate => exact h
  | pull name count =>
    rcases state_pull setup c name count with same | ⟨cursor, pulled⟩
    · exact same ▸ h
    · rw [pulled]
      exact h.of_kept (pullMany_quiet count cursor setup c.state).kept

/-- Every reachable store is sound. -/
theorem Reachable.sound (h : c.Reachable) : c.state.Sound := by
  induction h with
  | start => exact .empty
  | @step c setup entry _ pages settled managed ih =>
    have fresh : { c.state with calls := [], generated := 0 : StoreState }.Sound :=
      ⟨ih.rows, ih.settled, ih.hooks, ih.names, ih.locks⟩
    exact execute_sound (c := { c with state := { c.state with calls := [], generated := 0 } })
      fresh settled pages managed

/-- The console after entries on an empty store. -/
def after (setup : Setup) (entries : List Entry) : Console :=
  entries.foldl (fun c entry => (c.step setup entry).2) .empty

/-- Managed entries lead to a reachable console. -/
theorem reachable_after (hs : setup.IsSettled) (hp : 0 < setup.pageSize) {entries : List Entry}
    (he : ∀ entry ∈ entries, entry.IsManaged) : (after setup entries).Reachable := by
  have run : ∀ c : Console, c.Reachable →
      (entries.foldl (fun c entry => (c.step setup entry).2) c).Reachable := by
    induction entries with
    | nil => exact fun _ h => h
    | cons entry rest ih =>
      intro c h
      have next := Reachable.step h hp hs (he entry List.mem_cons_self)
      exact ih (fun e hm => he e (List.mem_cons_of_mem _ hm)) _ next
  exact run .empty .start

end Console

/-! ## A small store -/

/-- A setup whose functions answer with their last argument. -/
def Setup.echo : Setup where
  config := { Config.standard with lockTimeout := .int 1 }
  pageSize := 2
  functions := fun _ _ arguments => .ok (arguments.getLast?.getD .null)
  freshKey := fun n => "key " ++ toString n

theorem Setup.isSettled_echo : Setup.echo.IsSettled := by
  rintro calls f arguments answer ha ⟨⟩
  cases h : arguments.getLast? with
  | none => trivial
  | some last => exact ha last (List.mem_of_getLast? h)

/-- A document with a key and a name, as it is handed in. -/
def person (key : Term) (name : String) : Term :=
  .mapping [(.text "id", key), (.text "name", .text name)]

/-- An insert of one document. -/
def Entry.insert (document conflict : Term) : Entry :=
  .command (.insert (.text "people") document conflict (.text "hard") (.bool true))

/-- A table with a hook and two documents, one of them replaced. -/
def Console.people : Console := .after .echo
  [.command (.create (.text "people") (.text "id")),
    .command (.setHook "people" (.function ⟨0, "echo"⟩)),
    .insert (person (.int 1) "ann") (.text "error"),
    .insert (person (.int 2) "bob") (.text "error"),
    .insert (person (.int 2) "eve") (.text "replace")]

theorem Console.reachable_people : people.Reachable := by
  refine reachable_after Setup.isSettled_echo (by decide) ?_
  simp [Entry.IsManaged, Entry.insert, Command.IsManaged, person, Term.IsSettled,
    Term.SettledEntries, Term.labels, Term.label?, Term.text, Term.int]

theorem Console.faults_people : people.state.faults = [] :=
  List.length_eq_zero_iff.1 (by decide +kernel : people.state.faults.length = 0)

/-! ## What is found under a code -/

theorem Value.same_self_of_isAddress {v : Value} (h : v.isAddress = true) : v.same v = true := by
  have place : ∀ n : Number, (∃ p, n.place = some p) → n.same n = true :=
    fun n ⟨p, hp⟩ => Number.same_iff.2 ⟨p, hp, hp⟩
  rcases v with (_ | b | (i | (x | s | ⟨s, m, e, hm⟩)) | t) | items | fields
  · cases h
  · cases h
  · exact place (.int i) ⟨_, rfl⟩
  · cases h
  · exact place (.float (.infinite s)) ⟨_, rfl⟩
  · exact place (.float (.finite s m e hm)) ⟨_, rfl⟩
  · exact beq_self_eq_true t
  · cases h
  · cases h

/-- In every reachable state each row belongs to a table that exists, holds a valid document, and
stands under the code of the key in the key field, which is no NaN; the rows of a table differ in
their codes, and so their documents in the values of their keys; and each hook is one of a table
that exists. -/
theorem Console.rows_addressed {c : Console} (h : c.Reachable) :
    (∀ r ∈ c.state.database.rows, ∃ field key,
        c.state.database.keyField? r.table = some field ∧
        r.body.toTerm.validateDocument "document" = .ok r.body ∧ r.body.IsSettled ∧
        Entries.find? r.body field = some key ∧ key.isKey = true ∧ key.same key = true ∧
        key.toTerm.encodeKey = .ok r.code) ∧
      (c.state.database.rows.Pairwise fun r s => r.table = s.table → r.code ≠ s.code) ∧
      (c.state.database.rows.Pairwise fun r s => r.table = s.table →
        ∀ field, c.state.database.keyField? r.table = some field →
          (r.body.fieldOrNull field).same (s.body.fieldOrNull field) = false) ∧
      ∀ table, Entries.has c.state.hooks table = true →
        (c.state.database.keyField? table).isSome = true := by
  have sound := h.sound
  have codes : c.state.database.rows.Pairwise fun r s => r.table = s.table → r.code ≠ s.code := by
    refine sound.rows.distinct.imp fun {r s} hrs ht hc => ?_
    rw [(Database.isAt_iff s r.table r.code).2 ⟨ht.symm, hc.symm⟩] at hrs
    cases hrs
  refine ⟨fun r hr => ?_, codes, ?_, fun table hook => ?_⟩
  · obtain ⟨field, hf, key, hfind, haddr, hcode⟩ := sound.rows.keyed r hr
    refine ⟨field, key, hf, Term.validateDocument_toTerm _ _, sound.settled r hr, hfind,
      Value.isKey_of_isAddress haddr, Value.same_self_of_isAddress haddr, ?_⟩
    rw [Value.encodeKey_toTerm, hcode]
  · refine codes.imp_of_mem fun {r s} hr hs hrs ht field hf => ?_
    obtain ⟨rf, hrf, rkey, hrfind, -, hrcode⟩ := sound.rows.keyed r hr
    obtain ⟨sf, hsf, skey, hsfind, hsaddr, hscode⟩ := sound.rows.keyed s hs
    obtain rfl : field = rf := Option.some.inj (hf.symm.trans hrf)
    obtain rfl : field = sf := Option.some.inj ((ht ▸ hf).symm.trans hsf)
    -- Keys of the same value would have the same code.
    refine Bool.eq_false_iff.2 fun same => hrs ht ?_
    rw [Document.fieldOrNull, Document.fieldOrNull, hrfind, hsfind] at same
    rw [← hrcode, ← hscode]
    exact (Value.isAddress_of_same (Value.isKey_of_isAddress hsaddr) same).2
  · refine sound.hooks table (Classical.byContradiction fun absent => ?_)
    rw [Entries.has, Entries.find?_eq_none.2 absent] at hook
    cases hook

/-- The two documents of a small store, whose keys differ. -/
theorem Console.rows_addressed_people :
    people.state.database.rows.map Row.code = ["1", "2"] ∧
      people.state.database.rows.Pairwise fun r s => r.table = s.table → r.code ≠ s.code :=
  ⟨by decide +kernel, (rows_addressed reachable_people).2.1⟩

end Folio
