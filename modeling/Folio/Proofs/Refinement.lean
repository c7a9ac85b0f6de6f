import Folio.Proofs.Holders
import Folio.Proofs.Keeping
import Folio.Proofs.Outcomes
import Folio.Proofs.Reachability
import Folio.Proofs.Replanning
/-!
# A store as an ordered map

Each operation takes a store whose database keeps a catalog to one whose database keeps the next
catalog, and is answered as the catalog answers it. What is done to a locked document is played on
the listing step by step, and undone as a whole if it fails. A scan is one pass over the rows, which
sifts the listing. Main statement: whatever is asked of a store, one operation after another, it
answers as an ordered map does.
-/

namespace Folio

open Run StoreState

variable {setup : Setup} {s t : StoreState} {m : Catalog} {table : String} {key : Address}

/-! ## What the store does -/

theorem Store.exec_fieldName (keyField : Term) :
    (Store.fieldName (if keyField.isBlank then setup.config.keyField else keyField)).exec setup s =
      (Shelf.fieldOf setup.config keyField, s) := by
  unfold Store.fieldName Shelf.fieldOf
  generalize (if keyField.isBlank then setup.config.keyField else keyField) = name
  cases name with
  | scalar name =>
    cases name with
    | number name => cases name <;> rfl
    | _ => rfl
  | _ => rfl

theorem Store.exec_createTable (calm : s.faults = []) (keyField : Term) :
    (Store.createTable (.text table) keyField).exec setup s =
      if table.isEmpty then (.error (.request (.tableName (.text table))), s)
      else match Shelf.fieldOf setup.config keyField with
        | .error f => (.error f, s)
        | .ok field => match s.database.addTable? table field with
          | none => (.error (.request (.tableExists table)), s.tick)
          | some db => (.ok (), { s.tick with database := db }) := by
  have added : ∀ field, (Session.addTable table field).exec setup s =
      match s.database.addTable? table field with
      | none => (.error (.raised .integrity ""), s.tick)
      | some db => (.ok (), { s.tick with database := db }) := by
    intro field
    unfold Session.addTable
    rw [exec_faulty_of_nil calm, exec_bind, exec_get]
    dsimp only [tick_database]
    cases s.database.addTable? table field <;> rfl
  unfold Store.createTable
  dsimp only [Term.text]
  split
  · rfl
  · rw [exec_bind, exec_read]
    dsimp only
    rw [exec_bind, Store.exec_fieldName]
    cases Shelf.fieldOf setup.config keyField with
    | error f => rfl
    | ok field =>
      dsimp only
      have kept : ((Session.addTable table field).exec setup s).2.faults = s.faults := by
        rw [added]
        cases s.database.addTable? table field <;> rfl
      rw [exec_bind, exec_attempt, exec_transaction_of_connects (connects_of_nil calm) kept, added]
      cases s.database.addTable? table field <;> rfl

theorem Store.exec_dropTable (calm : s.faults = []) :
    (Store.dropTable table).exec setup s =
      if (s.database.keyField? table).isSome then
        (.ok (), { s.tick with
          database := s.database.removeTable table
          hooks := Entries.erase s.hooks table })
      else (.error (.tableNotFound table), { s.tick with
        database := s.database.removeTable table }) := by
  have removed : (Session.removeTable table).exec setup s =
      (.ok (if (s.database.keyField? table).isSome then 1 else 0),
        { s.tick with database := s.database.removeTable table }) := by
    unfold Session.removeTable
    rw [exec_faulty_of_nil calm]
    rfl
  unfold Store.dropTable
  rw [exec_bind, exec_session _ (connects_of_nil calm) (by rw [removed]; rfl), removed]
  dsimp only
  split <;> rfl

/-! ## Following a catalog -/

/-- A store shows a catalog: nothing strikes it, no key is locked, and its database keeps the
catalog. -/
structure StoreState.Shows (s : StoreState) (m : Catalog) : Prop where
  faults : s.faults = []
  locks : s.locks.Sound
  free : ∀ identity, s.locks.isHeld identity = false
  keeps : s.database.Keeps m

theorem StoreState.Shows.empty : StoreState.empty.Shows .empty where
  faults := rfl
  locks := .empty
  free _ := rfl
  keeps := .empty

theorem StoreState.Shows.orderly (h : s.Shows m) : s.Orderly := orderly_of_nil h.faults h.locks

theorem StoreState.Shows.of_quiet (h : s.Shows m) (quiet : Quiet s t) : t.Shows m where
  faults := quiet.faults.trans h.faults
  locks := quiet.locks ▸ h.locks
  free := quiet.locks ▸ h.free
  keeps := quiet.database ▸ h.keeps

/-- An answer and the state behind it are those of a catalog. -/
structure Follows (said : Except Failure Answer × Catalog) (r : Except Failure Answer)
    (t : StoreState) : Prop where
  agrees : Answer.Agrees r said.1
  shows : t.Shows said.2

/-- The work on a locked document is done, and undone if it fails. -/
theorem StoreState.Shows.locked {α : Type} {R : Except Failure α → Database → Prop}
    {body : Slot → Run α} (h : s.Shows m) (waits : Timeout.check setup.config.lockTimeout = .ok ())
    (done : ∀ u, u.faults = [] → u.locks.Sound → u.database = s.database →
      Ensures setup u (body ⟨table, key.value.toTerm⟩) fun r v => Worked u v ∧ match r with
        | .ok a => R (.ok a) v.database
        | .error f => R (.error f.reported) s.database) :
    Ensures setup s (Store.locked table key.value.toTerm body) fun r t =>
      Onward s t ∧ R r t.database := by
  have free := LockTable.isHeld_eq_false_iff.1 (h.free (table, key.value.code))
  refine lockedWhen_of_isFree (Q := fun r db _ => R r db) h.orderly free waits fun u began sound =>
    (done u (began.faults.trans h.faults) sound began.database).mono ?_
  rintro (f | a) v ⟨worked, kept⟩
  · exact ⟨worked, kept⟩
  · exact ⟨worked, kept⟩

theorem StoreState.Shows.onward {n : Catalog} (h : s.Shows m) (onward : s.Onward t)
    (keeps : t.database.Keeps n) : t.Shows n where
  faults := onward.faults.trans h.faults
  locks := onward.sound
  free identity := (onward.held identity).trans (h.free identity)
  keeps := keeps

/-! ## Locked documents -/

theorem Command.storable_sheet (sheet : Option Sheet) :
    storable (optionalDocument (sheet.map Sheet.document)) =
      .ok (sheet.map fun written => written.document.reread) := by
  cases sheet with
  | none => rfl
  | some sheet =>
    have value : sheet.document.toTerm.toValue = .ok (.object sheet.document) :=
      Value.toValue_toTerm (.object sheet.document)
    rw [Option.map_some, Option.map_some, optionalDocument]
    unfold Document.toTerm storable at *
    dsimp only
    rw [value]
    exact congrArg (fun d => Except.ok (some (Document.reread d))) sheet.settled.settle

theorem strike?_of_calm (calm : s.faults = []) (point : FaultPoint) (k : Option Term) (n : Nat) :
    s.strike? point k n = none :=
  strike?_eq_none fun f hf => by rw [calm] at hf; cases hf

/-- A fitting document is written, or a document is removed. -/
theorem write_keeps (calm : s.faults = []) (sound : s.locks.Sound) (keeps : s.database.Keeps m)
    {sheet : Option Sheet} (fits : (m table).Fits key sheet) :
    Ensures setup s (Slot.write ⟨table, key.value.toTerm⟩
      (sheet.map fun written => written.document.reread)) fun r t =>
        Worked s t ∧ r = .ok () ∧ t.database.Keeps (Function.update m table
          { m table with listing := (m table).listing.write key sheet }) := by
  refine (slot_write_course (orderly_of_nil calm sound) _).mono ?_
  rintro r t ⟨⟨worked, -⟩, written⟩
  rw [strike?_of_calm calm] at written
  exact ⟨worked, written.1, written.2 ▸ keeps.written fits⟩

/-- One touch of a locked document comes to what it comes to on the listing. -/
theorem act_keeps (calm : s.faults = []) (sound : s.locks.Sound) (keeps : s.database.Keeps m)
    {touch : Touch} (fits : (m table).Fits key touch.sheet?) :
    Ensures setup s (Command.act ⟨table, key.value.toTerm⟩ touch.action) fun r t =>
      Worked s t ∧ r = .ok ((m table).listing.touch key touch).1 ∧
        t.database.Keeps (Function.update m table
          { m table with listing := ((m table).listing.touch key touch).2 }) := by
  cases touch with
  | read =>
    have read := @slot_read_course setup s table key.value (orderly_of_nil calm sound)
    rw [strike?_of_calm calm] at read
    refine read.bind ?_ (fun f t failed => nomatch failed.1)
    rintro _ _ ⟨⟨⟩, rfl⟩
    rw [(keeps.holds table).find? key, Listing.touch, Function.update_eq_self]
    exact ⟨(ticked_operations s _).worked, rfl, keeps⟩
  | write sheet =>
    unfold Touch.action Command.act
    dsimp only
    rw [Command.storable_sheet]
    refine (write_keeps calm sound keeps fits).bind ?_
      (fun f t failed => nomatch failed.2.1)
    rintro _ t ⟨worked, -, keeps⟩
    exact ⟨worked, rfl, keeps⟩

/-- What is done to a locked document is answered as it is played on the listing. -/
theorem actAll_keeps (calm : s.faults = []) (sound : s.locks.Sound) (keeps : s.database.Keeps m)
    {touches : List Touch} (fits : ∀ touched ∈ touches, (m table).Fits key touched.sheet?)
    (ending : Option (ErrorKind × String)) :
    Ensures setup s (Command.actAll ⟨table, key.value.toTerm⟩
      (touches.map Touch.action ++ ending.toList.map fun (kind, message) => .raise kind message))
      fun r t => Worked s t ∧ match ending with
        | none => r = .ok ((m table).listing.play key touches).1 ∧
          t.database.Keeps (Function.update m table
            { m table with listing := ((m table).listing.play key touches).2 })
        | some (kind, message) => r = .error (.raised kind message) := by
  induction touches generalizing s m with
  | nil =>
    cases ending with
    | none =>
      refine ⟨refl s, rfl, ?_⟩
      rw [Listing.play, Function.update_eq_self]
      exact keeps
    | some ending => exact ⟨refl s, rfl⟩
  | cons touch touches ih =>
    have one := @act_keeps setup s m table key calm sound keeps touch
      (fits touch List.mem_cons_self)
    rw [List.map_cons, List.cons_append, Command.actAll]
    refine one.bind ?_ (fun f t failed => nomatch failed.2.1)
    rintro _ t ⟨worked, ⟨⟩, keeps⟩
    have rest := ih (worked.faults.trans calm) (worked.locks ▸ sound) keeps
      (fun touched ht => by
        rw [Function.update_self]
        exact fits touched (List.mem_cons_of_mem _ ht))
    rw [Function.update_self, Function.update_idem] at rest
    refine rest.bind ?_ ?_
    · rintro results u ⟨more, ended⟩
      refine ⟨IsTrans.trans _ _ _ worked more, ?_⟩
      cases ending with
      | none => exact ⟨congrArg _ (congrArg _ (Except.ok.inj ended.1)), ended.2⟩
      | some ending => cases ended
    · rintro f u ⟨more, ended⟩
      refine ⟨IsTrans.trans _ _ _ worked more, ?_⟩
      cases ending with
      | none => cases ended.1
      | some ending => exact ended

/-! ## Scans -/

section Listings

variable {rows : List Row} {listing : Listing}

/-- A pass over rows finds what a predicate sifts from the listing. -/
theorem pass_eq_sift (kept : List.Forall₂ (Row.Keeps table) rows listing) (predicate : Term)
    (calls : List Call) :
    Scan.pass setup predicate .ok calls rows =
      Listing.sift setup predicate calls (listing.map Prod.snd) := by
  induction kept generalizing calls with
  | nil => rfl
  | cons keeps _ ih =>
    rw [Scan.pass, List.map_cons, Listing.sift, keeps.body, ih]
    rcases Scan.verdict setup predicate _ _ with f | (_ | _)
    · rfl
    · exact (bind_pure _).symm
    · rfl

/-- A pass over rows reads the listed keys off them, in the spelling of the documents. -/
theorem pass_keys (kept : List.Forall₂ (Row.Keeps table) rows listing) {field : String}
    (carried : ∀ e ∈ listing, e.2.IsKeyed field e.1.value.code) (calls : List Call) :
    ∃ found, Scan.pass setup .null (Store.keyOf field) calls rows = .ok found ∧
      List.Forall₂ (fun v w => v.same w = true) found (listing.map fun e => e.1.value) := by
  induction kept with
  | nil => exact ⟨[], rfl, .nil⟩
  | @cons r e rows listing keeps _ ih =>
    obtain ⟨found, passed, same⟩ := ih fun e he => carried e (List.mem_cons_of_mem _ he)
    obtain ⟨v, hv, address, code⟩ := carried e List.mem_cons_self
    have read : Store.keyOf field r.body = .ok v := by
      rw [keeps.body, Store.keyOf, hv]
    refine ⟨v :: found, ?_, .cons ((Value.code_eq_iff address e.1.isAddress).1 code) same⟩
    obtain ⟨said, asked⟩ := @Scan.verdict_of_pure setup .null rfl r.body.toTerm calls
    rw [Scan.pass]
    rw [said, asked, read, passed]
    rfl

end Listings

/-! ## Operations -/

theorem create_follows (h : s.Shows m) {keyField : Term}
    (admits : (m table).Admits setup (.create keyField)) :
    Ensures setup s (Command.run (.create (.text table) keyField))
      (Follows (m.step setup ⟨table, .create keyField⟩)) := by
  have quiet : s.tick.Shows m := h.of_quiet (quiet_tick s)
  unfold Ensures Command.run Catalog.step Shelf.step
  rw [exec_bind, Store.exec_createTable h.faults]
  dsimp only
  split
  · rw [Function.update_eq_self]
    exact ⟨.same _, h⟩
  · unfold Shelf.Admits at admits
    cases named : Shelf.fieldOf setup.config keyField with
    | error f =>
      rw [Function.update_eq_self]
      exact ⟨.same _, h⟩
    | ok field =>
      have added := h.keeps.added fun absent => admits absent field (by rw [named]; rfl)
      dsimp only
      cases new : s.database.addTable? table field with
      | none =>
        rw [new] at added
        obtain ⟨old, present⟩ := added
        rw [present]
        dsimp only
        rw [Function.update_eq_self]
        exact ⟨.same _, quiet⟩
      | some next =>
        rw [new] at added
        obtain ⟨absent, keeps⟩ := added
        rw [absent]
        exact ⟨.same _, h.faults, h.locks, h.free, keeps⟩

theorem drop_follows (h : s.Shows m) :
    Ensures setup s (Command.run (.drop table)) (Follows (m.step setup ⟨table, .drop⟩)) := by
  have removed := @Database.Keeps.removed s.database m table h.keeps
  unfold Ensures Command.run Catalog.step Shelf.step
  rw [exec_bind, Store.exec_dropTable h.faults, (h.keeps.holds table).field]
  dsimp only
  split
  · exact ⟨.same _, h.faults, h.locks, h.free, removed⟩
  · exact ⟨.same _, h.faults, h.locks, h.free, removed⟩

theorem put_follows (waits : Timeout.check setup.config.lockTimeout = .ok ()) (h : s.Shows m)
    {sheet : Option Sheet} (admits : (m table).Admits setup (.put key sheet)) :
    Ensures setup s
      (Command.run (.put table key.value.toTerm (optionalDocument (sheet.map Sheet.document))))
      (Follows (m.step setup ⟨table, .put key sheet⟩)) := by
  unfold Command.run
  dsimp only
  rw [Command.storable_sheet]
  refine (h.locked waits (R := fun r db => r = .ok () ∧ db.Keeps (Function.update m table
    { m table with listing := (m table).listing.write key sheet })) ?_).bind ?_
      (fun f t failed => nomatch failed.2.1)
  · intro u calm sound same
    refine (write_keeps calm sound (same ▸ h.keeps) admits).mono ?_
    rintro _ v ⟨worked, rfl, keeps⟩
    exact ⟨worked, rfl, keeps⟩
  · rintro _ t ⟨onward, -, keeps⟩
    exact ⟨.same _, h.onward onward keeps⟩

theorem locked_follows (waits : Timeout.check setup.config.lockTimeout = .ok ()) (h : s.Shows m)
    {touches : List Touch} {ending : Option (ErrorKind × String)}
    (admits : (m table).Admits setup (.locked key touches ending)) :
    Ensures setup s
      (Command.run (.locked table key.value.toTerm (touches.map Touch.action ++
        ending.toList.map fun (kind, message) => .raise kind message)))
      (Follows (m.step setup ⟨table, .locked key touches ending⟩)) := by
  unfold Command.run
  refine (h.locked waits (R := fun r db => match ending with
    | none => r = .ok ((m table).listing.play key touches).1 ∧
      db.Keeps (Function.update m table
        { m table with listing := ((m table).listing.play key touches).2 })
    | some (kind, message) =>
      r = .error (Failure.raised kind message).reported ∧ db = s.database) ?_).bind ?_ ?_
  · intro u calm sound same
    refine (actAll_keeps calm sound (same ▸ h.keeps) admits ending).mono ?_
    rintro r v ⟨worked, ended⟩
    refine ⟨worked, ?_⟩
    rcases ending with _ | ⟨kind, message⟩
    · obtain ⟨rfl, keeps⟩ := ended
      exact ⟨rfl, keeps⟩
    · cases ended
      exact ⟨rfl, rfl⟩
  · rintro results t ⟨onward, ended⟩
    rcases ending with _ | ⟨kind, message⟩
    · obtain ⟨⟨⟩, keeps⟩ := ended
      exact ⟨.same _, h.onward onward keeps⟩
    · cases ended.1
  · rintro f t ⟨onward, ended⟩
    rcases ending with _ | ⟨kind, message⟩
    · cases ended.1
    · obtain ⟨⟨⟩, same⟩ := ended
      refine ⟨.same _, ?_⟩
      unfold Catalog.step Shelf.step
      dsimp only
      rw [Function.update_eq_self]
      exact h.onward onward (same ▸ h.keeps)

theorem find_follows (h : s.Shows m) :
    Ensures setup s (Command.run (.find table key.value.toTerm))
      (Follows (m.step setup ⟨table, .find key⟩)) := by
  unfold Ensures Command.run Catalog.step Shelf.step
  rw [exec_bind, Target.exec_find? h.orderly, (h.keeps.holds table).find? key]
  dsimp only
  rw [Function.update_eq_self]
  exact ⟨.same _, h.of_quiet (quiet_tick s)⟩

theorem scan_follows (pages : 0 < setup.pageSize) (h : s.Shows m) (fresh : s.calls = [])
    (predicate : Term) :
    Ensures setup s (Command.run (.scan table predicate))
      (Follows (m.step setup ⟨table, .scan predicate⟩)) := by
  have ended := @Cursor.collect_ends Document setup s .ok pages h.keeps.rows table predicate
  unfold Command.run Store.select Catalog.step Shelf.step
  dsimp only
  rw [Function.update_eq_self, ← pass_eq_sift (h.keeps.holds table).listed, ← fresh]
  refine ended.bind ?_ ?_
  · rintro found t (⟨faulty, -⟩ | ⟨quiet, -, passed⟩)
    · exact absurd h.faults faulty
    · rw [Target.rowsOf, ← passed]
      exact ⟨.same _, h.of_quiet quiet⟩
  · rintro f t (⟨faulty, -⟩ | ⟨quiet, -, passed⟩)
    · exact absurd h.faults faulty
    · rw [Target.rowsOf, ← passed]
      exact ⟨.same _, h.of_quiet quiet⟩

theorem keys_follows (pages : 0 < setup.pageSize) (h : s.Shows m) :
    Ensures setup s (Command.run (.keys table)) (Follows (m.step setup ⟨table, .keys⟩)) := by
  have here := h.keeps.holds table
  have named := @Store.exec_keyField setup s table h.orderly
  have quiet : s.tick.Shows m := h.of_quiet (quiet_tick s)
  rw [here.field] at named
  unfold Command.run Store.keys Catalog.step Shelf.step
  dsimp only
  rw [Function.update_eq_self]
  cases own : (m table).field with
  | none =>
    rw [own] at named
    unfold Ensures
    rw [exec_bind, exec_bind, named]
    exact ⟨.same _, quiet⟩
  | some field =>
    rw [own] at named
    obtain ⟨found, passed, same⟩ :=
      @pass_keys setup table _ _ here.listed field (here.carried field own) s.tick.calls
    have ended := @Cursor.collect_ends Value setup s.tick (Store.keyOf field) pages h.keeps.rows
      table .null
    unfold Ensures at ended ⊢
    rw [exec_bind, exec_bind, named]
    dsimp only
    generalize ((Cursor.start table .null).collect (Store.keyOf field)).exec setup s.tick = last
      at ended ⊢
    obtain ⟨r, t⟩ := last
    obtain ⟨faulty, -⟩ | ⟨later, -, rfl⟩ := ended
    · exact absurd h.faults faulty
    · rw [tick_database, ← Target.rowsOf, passed]
      exact ⟨.keys same, quiet.of_quiet later⟩

/-- Every operation is answered as the catalog answers it, and the store goes on showing the
catalog. -/
theorem Operation.follows (pages : 0 < setup.pageSize)
    (waits : Timeout.check setup.config.lockTimeout = .ok ()) (h : s.Shows m) (fresh : s.calls = [])
    (op : Operation) (admits : (m op.table).Admits setup op.deed) :
    Ensures setup s op.command.run (Follows (m.step setup op)) := by
  obtain ⟨table, deed⟩ := op
  cases deed with
  | create keyField => exact create_follows h admits
  | drop => exact drop_follows h
  | put key sheet => exact put_follows waits h admits
  | locked key touches ending => exact locked_follows waits h admits
  | find key => exact find_follows h
  | scan predicate => exact scan_follows pages h fresh predicate
  | keys => exact keys_follows pages h

/-! ## Runs -/

namespace Console

/-- What the entries of a session are answered with. -/
def answers (setup : Setup) : Console → List Entry → List (Except Failure Answer)
  | _, [] => []
  | c, entry :: rest =>
    let (answer, next) := c.step setup entry
    answer :: answers setup next rest

theorem step_follows (pages : 0 < setup.pageSize)
    (waits : Timeout.check setup.config.lockTimeout = .ok ()) {c : Console} (h : c.state.Shows m)
    (op : Operation) (admits : (m op.table).Admits setup op.deed) :
    Follows (m.step setup op) (c.step setup op.entry).1 (c.step setup op.entry).2.state := by
  have fresh : { c.state with calls := [], generated := 0 : StoreState }.Shows m :=
    h.of_quiet ⟨rfl, rfl, rfl, rfl⟩
  exact op.follows pages waits fresh rfl admits

/-- A run from a store that shows a catalog is answered as by the catalog, and leads to a store that
shows the catalog after it. -/
theorem run_follows (pages : 0 < setup.pageSize)
    (waits : Timeout.check setup.config.lockTimeout = .ok ()) {c : Console} (h : c.state.Shows m)
    {ops : List Operation} (admits : m.Admits setup ops) :
    List.Forall₂ Answer.Agrees (c.answers setup (ops.map Operation.entry)) (m.answers setup ops) ∧
      ((ops.map Operation.entry).foldl (fun c entry => (c.step setup entry).2) c).state.Shows
        (m.after setup ops) := by
  induction ops generalizing c m with
  | nil => exact ⟨.nil, h⟩
  | cons op ops ih =>
    obtain ⟨here, later⟩ := admits
    have followed := step_follows pages waits h op here
    obtain ⟨agree, shows⟩ := ih followed.shows later
    exact ⟨.cons followed.agrees agree, shows⟩

/-- A store is an ordered map for each table. From the empty store on, and with pages of any size,
every run of operations is answered as the catalog answers it. After it, what is found under a key
is the document that was committed last, and a predicate that decides about each document selects
from the listing by filtering it. -/
theorem refines_ordered_map (pages : 0 < setup.pageSize)
    (waits : Timeout.check setup.config.lockTimeout = .ok ()) (ops : List Operation)
    (admits : Catalog.empty.Admits setup ops) :
    List.Forall₂ Answer.Agrees (empty.answers setup (ops.map Operation.entry))
        (Catalog.empty.answers setup ops) ∧
      (∀ table key,
        ((after setup (ops.map Operation.entry)).step setup
            (Operation.entry ⟨table, .find key⟩)).1 =
          .ok (.document (committed table key ops))) ∧
      ∀ table predicate (selected : Document → Bool),
        (∀ e ∈ (Catalog.empty.after setup ops table).listing, ∀ calls,
          Scan.verdict setup predicate e.2.toTerm calls = .ok (selected e.2)) →
        ((after setup (ops.map Operation.entry)).step setup
            (Operation.entry ⟨table, .scan predicate⟩)).1 =
          .ok (.documents
            (((Catalog.empty.after setup ops table).listing.map Prod.snd).filter selected)) := by
  have start : empty.state.Shows .empty := .empty
  obtain ⟨agree, shows⟩ := run_follows pages waits start admits
  refine ⟨agree, fun table key => ?_, fun table predicate selected decides => ?_⟩
  · have found := (step_follows pages waits shows ⟨table, .find key⟩ trivial).agrees
    rw [← Catalog.find?_after setup table key ops]
    exact found.eq fun _ eq => by cases eq
  · have found := (step_follows pages waits shows ⟨table, .scan predicate⟩ trivial).agrees
    have sifted := @Listing.sift_eq_filter setup predicate selected
      ((Catalog.empty.after setup ops table).listing.map Prod.snd)
      (List.forall_mem_map.2 decides) []
    unfold Catalog.step Shelf.step at found
    dsimp only at found
    rw [sifted] at found
    exact found.eq fun _ eq => by cases eq

end Console

/-- A document with a key and a name. -/
def Sheet.card (key : Scalar) (name : String) : Sheet where
  document := [("id", .scalar key), ("name", .scalar (.text name))]
  settled := by
    refine ⟨?_, trivial, trivial, trivial⟩
    simp

/-- A key that is an integer. -/
def Address.int (i : Int) : Address := ⟨.scalar (.number (.int i)), rfl⟩

/-- Three documents, of which one is overwritten under another spelling of its key, one is removed
and put again, and one is removed in a block that fails. -/
def shelving : List Operation :=
  [⟨"people", .create (.text "id")⟩,
    ⟨"people", .put (.int 1) (some (.card (.number (.int 1)) "ann"))⟩,
    ⟨"people", .put (.int 2) (some (.card (.number (.int 2)) "bob"))⟩,
    ⟨"people", .put (.int 3) (some (.card (.number (.int 3)) "cid"))⟩,
    ⟨"people", .put ⟨Contention.wholeKey, by decide +kernel⟩
      (some (.card (.number (.int 1)) "eve"))⟩,
    ⟨"people", .put (.int 2) none⟩,
    ⟨"people", .put (.int 2) (some (.card (.number (.int 2)) "dan"))⟩,
    ⟨"people", .locked (.int 3) [.read, .write none, .read] (some (.value, "no"))⟩,
    ⟨"people", .keys⟩,
    ⟨"people", .scan .null⟩]

theorem Console.refines_ordered_map_shelving :
    Catalog.empty.Admits .echo shelving ∧
      (after .echo (shelving.map Operation.entry)).state.database.rows.map Row.code =
        ["1", "3", "2"] ∧
      List.Forall₂ Answer.Agrees (empty.answers .echo (shelving.map Operation.entry))
        (Catalog.empty.answers .echo shelving) ∧
      (committed "people" (.int 1) shelving).map (fun d => Value.encode (.object d)) =
        some "\x7b\"id\":1,\"name\":\"eve\"\x7d" ∧
      ((after .echo (shelving.map Operation.entry)).step .echo
          (Operation.entry ⟨"people", .find (.int 1)⟩)).1 =
        .ok (.document (committed "people" (.int 1) shelving)) ∧
      ((after .echo (shelving.map Operation.entry)).step .echo
          (Operation.entry ⟨"people", .scan .null⟩)).1 =
        .ok (.documents (((Catalog.empty.after .echo shelving "people").listing.map Prod.snd).filter
          fun _ => true)) := by
  have admits : Catalog.empty.Admits .echo shelving := by decide +kernel
  obtain ⟨agree, found, scanned⟩ := refines_ordered_map (by decide) rfl shelving admits
  exact ⟨admits, by decide +kernel, agree, by decide +kernel, found "people" (.int 1),
    scanned "people" .null (fun _ => true) fun _ _ _ => rfl⟩

end Folio
