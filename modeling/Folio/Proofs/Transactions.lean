import Folio.Proofs.Courses
import Folio.Proofs.Reachability
import Folio.Store.Connection
/-!
# Transactions

What a connection does, seen from outside: a ledger of the writes that are permanent and of those of
the running transaction, if one runs. A read tells what the writes so far come to, where the last
one about an address or a table counts. Leaving a transaction moves its writes to the permanent ones
or strikes them out. Nothing here knows of a database, of rows or of what is restored.
-/

namespace Folio

open Run

/-! ## What was written -/

/-- A write that succeeded. -/
inductive Posting where
  /-- Keeps a document under the code of a key, or nothing. -/
  | put (table code : String) (document : Option Document)
  | opened (table keyField : String)
  /-- Removes a table and all its documents. -/
  | closed (table : String)

/-- Where a document stands. -/
structure Place where
  seq : Nat
  table : String
  code : String
  deriving DecidableEq

namespace Posting

/-- The document under an address after a write. -/
def document (table code : String) (before : Option Document) : Posting → Option Document
  | .put t c d => if t = table ∧ c = code then d else before
  | .opened .. => before
  | .closed t => if t = table then none else before

/-- The key field of a table after a write. -/
def keyField (table : String) (before : Option String) : Posting → Option String
  | .put .. => before
  | .opened t field => if t = table then some field else before
  | .closed t => if t = table then none else before

/-- The places after a write: an overwritten document keeps its place, and a new one comes after the
last one. -/
def places (standing : List Place) : Posting → List Place
  | .put table code (some _) =>
    if standing.any fun p => p.table == table && p.code == code then standing
    else standing ++ [⟨(standing.getLast?.map Place.seq).getD 0 + 1, table, code⟩]
  | .put table code none => standing.filter fun p => !(p.table == table && p.code == code)
  | .opened .. => standing
  | .closed table => standing.filter fun p => p.table != table

/-- The names of the tables after a write. -/
def names (standing : List String) : Posting → List String
  | .put .. => standing
  | .opened table _ => standing ++ [table]
  | .closed table => standing.filter (· != table)

end Posting

/-- Writes in the order in which they were made. -/
abbrev Postings := List Posting

namespace Postings

/-- The document under an address. -/
def document (written : Postings) (table code : String) : Option Document :=
  written.foldl (Posting.document table code) none

/-- The key field of a table. -/
def keyField (written : Postings) (table : String) : Option String :=
  written.foldl (Posting.keyField table) none

/-- The places of the documents in order. -/
def places (written : Postings) : List Place := written.foldl Posting.places []

/-- The names of the tables. -/
def names (written : Postings) : List String := written.foldl Posting.names []

/-- The documents of a table behind a place, up to a limit, with the numbers of their places. -/
def page (written : Postings) (table : String) (after : Nat) (limit : Option Nat) :
    List (Nat × Document) :=
  let behind := written.places.filter fun p => p.table == table && decide (after < p.seq)
  let seen := match limit with
    | some n => behind.take n
    | none => behind
  seen.filterMap fun p => (written.document p.table p.code).map (p.seq, ·)

variable (written : Postings) (last : Posting)

theorem document_append (table code : String) :
    document (written ++ [last]) table code =
      last.document table code (written.document table code) :=
  List.foldl_append

theorem keyField_append (table : String) :
    keyField (written ++ [last]) table = last.keyField table (written.keyField table) :=
  List.foldl_append

theorem places_append : places (written ++ [last]) = last.places written.places := List.foldl_append

theorem names_append : names (written ++ [last]) = last.names written.names := List.foldl_append

end Postings

/-! ## The ledger -/

/-- The writes that are permanent, and those of the running transaction. -/
structure Ledger where
  permanent : Postings
  running : Option Postings

namespace Ledger

/-- A ledger without writes. -/
def empty : Ledger := ⟨[], none⟩

/-- All writes that a read sees. -/
def seen (l : Ledger) : Postings := l.permanent ++ l.running.getD []

/-- What an operation inside a transaction is answered with and what it writes, by the writes so
far. -/
def perform (written : Postings) :
    Connection.Operation → Except Failure (Connection.Reply × Postings)
  | .fetch table key =>
    match key.encodeKey with
    | .error fault => .error (.encoding fault)
    | .ok code => .ok (.document (written.document table code), [])
  | .page table after limit => .ok (.page (written.page table after limit), [])
  | .put table key document =>
    match key.encodeKey with
    | .error fault => .error (.encoding fault)
    | .ok code =>
      let rows := if document.isSome || (written.document table code).isSome then 1 else 0
      .ok (.count rows, [.put table code (document.map fun d => d.settle.reread)])
  | .keyField table => .ok (.name (written.keyField table), [])
  | .tableNames => .ok (.names (written.names.mergeSort fun a b => decide (a ≤ b)), [])
  | .addTable table keyField =>
    match written.keyField table with
    | some _ => .error (.raised .integrity "")
    | none => .ok (.nothing, [.opened table keyField])
  | .removeTable table =>
    .ok (.count (if (written.keyField table).isSome then 1 else 0), [.closed table])

/-- What a step is answered with, and the ledger after it. -/
def step (l : Ledger) (step : Connection.Step) : Except Failure Connection.Reply × Ledger :=
  match step, l.running with
  | .enter, none => (.ok .nothing, { l with running := some [] })
  | .enter, some _ => (.error .sessionActive, l)
  | .leave _, none => (.ok .nothing, l)
  | .leave true, some _ => (.ok .nothing, { l with running := none })
  | .leave false, some written => (.ok .nothing, ⟨l.permanent ++ written, none⟩)
  | .perform operation, none => (.error operation.refusal, l)
  | .perform operation, some written =>
    match perform l.seen operation with
    | .ok (reply, more) => (.ok reply, { l with running := some (written ++ more) })
    | .error f => (.error f, l)

/-- The ledger after steps. -/
def after (l : Ledger) (steps : List Connection.Step) : Ledger :=
  steps.foldl (fun l step => (l.step step).2) l

/-- What steps are answered with, in turn. -/
def answers : Ledger → List Connection.Step → List (Except Failure Connection.Reply)
  | _, [] => []
  | l, step :: rest => (l.step step).1 :: answers (l.step step).2 rest

end Ledger

/-! ## A database that holds what was written -/

/-- Where the document of a row stands. -/
def Row.place (r : Row) : Place := ⟨r.seq, r.table, r.code⟩

/-- The database holds what the writes come to. -/
structure Database.Records (db : Database) (written : Postings) : Prop where
  rows : db.Ordered
  documents : ∀ table code, db.find? table code = written.document table code
  places : db.rows.map Row.place = written.places
  keyFields : ∀ table, db.keyField? table = written.keyField table
  names : db.tables.map Prod.fst = written.names
  distinct : (db.tables.map Prod.fst).Nodup

namespace Database

variable {db : Database} {written : Postings} {table code : String}

theorem Records.empty : Database.empty.Records [] where
  rows := .empty
  documents _ _ := rfl
  places := rfl
  keyFields _ := rfl
  names := rfl
  distinct := List.nodup_nil

theorem foldl_max_eq {rows : List Row} {n m : Nat} (le : n ≤ m) (h : ∀ r ∈ rows, r.seq ≤ m) :
    rows.foldl (fun n r => max n r.seq) n ≤ m := by
  induction rows generalizing n with
  | nil => exact le
  | cons r rows ih =>
    exact ih (max_le le (h r List.mem_cons_self)) fun s hs => h s (List.mem_cons_of_mem r hs)

/-- The largest number is that of the last row. -/
theorem Ordered.lastSeq_eq (h : db.Ordered) :
    db.lastSeq = (db.rows.getLast?.map Row.seq).getD 0 := by
  unfold lastSeq
  have rows := h.ascending
  rcases List.eq_nil_or_concat db.rows with none | ⟨before, last, split⟩
  · rw [none]
    rfl
  · rw [List.concat_eq_append] at split
    rw [split, List.pairwise_append] at rows
    have below : before.foldl (fun n r => max n r.seq) 0 ≤ last.seq :=
      foldl_max_eq (Nat.zero_le _) fun r hr => (rows.2.2 r hr last List.mem_cons_self).le
    rw [split, List.foldl_append, List.getLast?_concat]
    exact max_eq_right below

theorem Records.any_places (h : db.Records written) (table code : String) :
    (written.places.any fun p => p.table == table && p.code == code) =
      (db.find? table code).isSome := by
  rw [← h.places, List.any_map, find?, Option.isSome_map, Bool.eq_iff_iff, List.any_eq_true,
    List.find?_isSome]
  rfl

theorem Records.put (h : db.Records written) (document : Option Document) :
    (db.enact table code (some document)).Records (written ++ [.put table code document]) := by
  have documents (t c : String) : (db.enact table code (some document)).find? t c =
      Postings.document (written ++ [.put table code document]) t c := by
    rw [Postings.document_append, ← h.documents]
    by_cases same : table = t ∧ code = c
    · obtain ⟨rfl, rfl⟩ := same
      rw [find?_enact_self, Posting.document, if_pos ⟨rfl, rfl⟩]
      rfl
    · rw [find?_enact_of_ne fun ht hc => same ⟨ht.symm, hc.symm⟩, Posting.document, if_neg same]
  refine ⟨?_, documents, ?_, fun t => ?_, ?_, ?_⟩
  · cases document with
    | none => exact h.rows.filter _ _
    | some d => exact h.rows.write d
  · rw [Postings.places_append]
    cases document with
    | none =>
      show (db.rows.filter _).map Row.place = written.places.filter _
      rw [← h.places, List.filter_map]
      rfl
    | some d =>
      rw [Posting.places, h.any_places, enact]
      -- A document that is replaced keeps its place, and a new one goes behind the last.
      cases found : db.find? table code with
      | some old =>
        rw [write_of_isSome (by rw [found]; rfl), List.map_map, Option.isSome_some, if_pos rfl,
          ← h.places]
        refine List.map_congr_left fun r _ => ?_
        simp [Row.place]
      | none =>
        rw [write_of_eq_none found, List.map_append, if_neg (by simp), h.places, h.rows.lastSeq_eq,
          ← h.places, List.getLast?_map, Option.map_map]
        rfl
  · rw [Postings.keyField_append, Posting.keyField, ← h.keyFields, keyField?, tables_enact]
    rfl
  · rw [Postings.names_append, Posting.names, ← h.names, tables_enact]
  · rw [tables_enact]
    exact h.distinct

theorem Records.opened (h : db.Records written) {field : String} (new : db.keyField? table = none) :
    Records ⟨db.tables ++ [(table, field)], db.rows⟩ (written ++ [.opened table field]) := by
  have put : db.tables ++ [(table, field)] = Entries.put db.tables table field :=
    (Entries.put_of_absent field new).symm
  refine ⟨⟨h.rows.distinct, h.rows.ascending, h.rows.positive⟩, fun t c => ?_, ?_, fun t => ?_, ?_,
    ?_⟩
  · rw [Postings.document_append]
    exact h.documents t c
  · rw [Postings.places_append]
    exact h.places
  · rw [Postings.keyField_append, Posting.keyField, ← h.keyFields, keyField?, put]
    by_cases same : table = t
    · rw [← same, Entries.find?_put_self, if_pos rfl]
    · rw [Entries.find?_put_of_ne _ _ same, if_neg same]
      rfl
  · rw [Postings.names_append, Posting.names, ← h.names, List.map_append]
    rfl
  · rw [put]
    exact Entries.nodup_put h.distinct table field

theorem Records.closed (h : db.Records written) :
    (db.removeTable table).Records (written ++ [.closed table]) := by
  refine ⟨h.rows.filter _ _, fun t c => ?_, ?_, fun t => ?_, ?_, Entries.nodup_erase h.distinct table⟩
  · rw [Postings.document_append, Posting.document, ← h.documents]
    by_cases same : table = t
    · rw [if_pos same]
      refine find?_eq_none.2 fun r hr => Bool.eq_false_iff.2 fun at_c => ?_
      have other := (List.mem_filter.1 hr).2
      rw [((isAt_iff r t c).1 at_c).1, same, bne_self_eq_false] at other
      cases other
    · rw [if_neg same]
      refine find?_eq_of_filter (List.filter_filter.trans (List.filter_congr fun r _ => ?_))
      cases at_c : r.isAt t c with
      | false => rfl
      | true =>
        rw [((isAt_iff r t c).1 at_c).1]
        simpa using Ne.symm same
  · rw [Postings.places_append, Posting.places, ← h.places, List.filter_map]
    rfl
  · rw [Postings.keyField_append, Posting.keyField, ← h.keyFields, keyField?, removeTable]
    by_cases same : table = t
    · rw [← same, Entries.find?_erase_self h.distinct, if_pos rfl]
    · rw [Entries.find?_erase_of_ne _ same, if_neg same]
      rfl
  · rw [Postings.names_append, Posting.names, ← h.names]
    exact Entries.map_fst_erase h.distinct table

theorem Records.page (h : db.Records written) (after : Nat) (limit : Option Nat) :
    (db.page table after limit).map (fun r => (r.seq, r.body)) =
      written.page table after limit := by
  have read (rows : List Row) (sub : ∀ r ∈ rows, r ∈ db.rows) :
      rows.map (fun r => (r.seq, r.body)) = (rows.map Row.place).filterMap fun p =>
        (written.document p.table p.code).map (p.seq, ·) := by
    rw [List.filterMap_map, ← List.filterMap_eq_map]
    refine List.filterMap_congr fun r hr => ?_
    show _ = (written.document r.table r.code).map _
    rw [← h.documents, h.rows.find?_of_mem (sub r hr)]
    rfl
  have behind : (db.rowsAfter table after).map Row.place =
      written.places.filter fun p => p.table == table && decide (after < p.seq) := by
    rw [← h.places, List.filter_map]
    rfl
  have sub : ∀ r ∈ db.rowsAfter table after, r ∈ db.rows := fun r hr => (List.mem_filter.1 hr).1
  unfold Database.page Postings.page
  rw [← behind]
  cases limit with
  | none => exact read _ sub
  | some n =>
    rw [read _ fun r hr => sub r (List.mem_of_mem_take hr), List.map_take]

/-- An address has one row if a document is there, and else none. -/
theorem Ordered.count_eq (h : db.Ordered) (table code : String) :
    db.count table code = if (db.find? table code).isSome then 1 else 0 := by
  have apart := h.distinct.filter fun r => r.isAt table code
  have there : ∀ r ∈ db.rows.filter fun r => r.isAt table code, r.isAt table code = true :=
    fun r hr => (List.mem_filter.1 hr).2
  rw [find?, Option.isSome_map, ← List.head?_filter, count]
  generalize (db.rows.filter fun r => r.isAt table code) = rs at apart there ⊢
  rcases rs with _ | ⟨r, _ | ⟨s, rest⟩⟩
  · rfl
  · rfl
  · -- Both rows have the address, which no two rows share.
    have at_r := (isAt_iff r _ _).1 (there r List.mem_cons_self)
    have at_s := there s (List.mem_cons_of_mem r List.mem_cons_self)
    rw [← at_r.1, ← at_r.2, (List.pairwise_cons.1 apart).1 s List.mem_cons_self] at at_s
    cases at_s

theorem Ordered.count_le (h : db.Ordered) (table code : String) : db.count table code ≤ 1 := by
  rw [h.count_eq]
  split
  · exact Nat.le_refl 1
  · exact Nat.zero_le 1

end Database

/-! ## Operations -/

namespace Connection

variable {setup : Setup} {c : Connection} {l : Ledger} {α : Type}

/-- The database as it is outside of the running transaction. -/
def permanent (c : Connection) : Database := c.saved.getD c.state.database

/-- A connection shows what the ledger says. -/
structure Shows (c : Connection) (l : Ledger) : Prop where
  active : c.saved.isSome = l.running.isSome
  permanent : c.permanent.Records l.permanent
  current : c.state.database.Records l.seen
  calm : c.state.faults = []

theorem Shows.empty : empty.Shows .empty := ⟨rfl, .empty, .empty, rfl⟩

/-- Outside of a transaction an operation is refused. -/
theorem perform_of_inactive (idle : c.saved = none) (operation : Operation) :
    c.perform setup operation = (.error operation.refusal, c) := by
  have refused {α : Type} (x : Run α) : c.run setup x = (.error .sessionInactive, c) := by
    rw [run, isActive, idle]
    rfl
  cases operation with
  | fetch table key =>
    rw [perform, fetch, Operation.refusal]
    cases key.encodeKey with
    | error fault => rfl
    | ok code =>
      show replying _ (c.run setup _) = _
      rw [refused]
      rfl
  | _ =>
    rw [perform, refused]
    rfl

/-- An operation came to what is said where the database holds some writes: it is answered so, its
writes are in the database, and if it failed, then it changed nothing. -/
def Performs (c : Connection) (written : Postings) (done : Except Failure Reply × Connection)
    (said : Except Failure (Reply × Postings)) : Prop :=
  ∃ n db, done = (said.map Prod.fst, ⟨{ c.state with operations := n, database := db }, c.saved⟩) ∧
    match said with
    | .ok (_, more) => db.Records (written ++ more)
    | .error _ => db = c.state.database

section Active

variable (active : c.saved.isSome = true) (calm : c.state.faults = []) {written : Postings}
  (records : c.state.database.Records written)

include active calm in
/-- Inside a transaction, where no fault is injected, an operation runs. -/
theorem run_faulty (point : FaultPoint) (key : Option Term) (x : Run α) :
    c.run setup (Run.faulty point key x) =
      ((x.exec setup c.state.tick).1, ⟨(x.exec setup c.state.tick).2, c.saved⟩) := by
  rw [run, isActive, if_pos active, exec_faulty_of_nil calm]

include records in
theorem Performs.of_read {done : Except Failure Reply × Connection} {reply : Reply}
    (h : done = (.ok reply, ⟨c.state.tick, c.saved⟩)) :
    Performs c written done (.ok (reply, [])) :=
  ⟨_, _, h, show c.state.database.Records (written ++ []) by rwa [List.append_nil]⟩

include active calm records in
theorem fetch_performs (table : String) (key : Term) :
    Performs c written (c.perform setup (.fetch table key))
      (Ledger.perform written (.fetch table key)) := by
  rw [perform, fetch, Ledger.perform]
  cases coded : key.encodeKey with
  | error fault => exact ⟨_, _, rfl, rfl⟩
  | ok code =>
    refine .of_read records ?_
    simp only [Session.fetch, run_faulty active calm, Session.codeOf, coded, ← records.documents]
    rfl

include active calm records in
theorem put_performs (table : String) (key : Term) (document : Option Document) :
    Performs c written (c.perform setup (.put table key document))
      (Ledger.perform written (.put table key document)) := by
  rw [perform, Session.put, run_faulty active calm, Ledger.perform, Session.codeOf]
  cases coded : key.encodeKey with
  | error fault => exact ⟨_, _, rfl, rfl⟩
  | ok code =>
    cases document with
    | some d => exact ⟨c.state.operations + 1, _, rfl, records.put (some _)⟩
    | none =>
      refine ⟨c.state.operations + 1, _, ?_, records.put none⟩
      simp only [← records.documents, Option.isSome_none, Bool.false_or,
        ← records.rows.count_eq]
      rfl

include active calm records in
theorem addTable_performs (table keyField : String) :
    Performs c written (c.perform setup (.addTable table keyField))
      (Ledger.perform written (.addTable table keyField)) := by
  rw [perform, Session.addTable, run_faulty active calm, Ledger.perform, ← records.keyFields,
    exec_bind, exec_get]
  dsimp only
  rw [StoreState.tick_database, Database.addTable?, Entries.has, ← Database.keyField?]
  cases taken : c.state.database.keyField? table with
  | some field => exact ⟨c.state.operations + 1, _, rfl, rfl⟩
  | none => exact ⟨c.state.operations + 1, _, rfl, records.opened taken⟩

include active calm records in
theorem removeTable_performs (table : String) :
    Performs c written (c.perform setup (.removeTable table))
      (Ledger.perform written (.removeTable table)) := by
  rw [perform, Session.removeTable, run_faulty active calm, Ledger.perform, ← records.keyFields]
  exact ⟨c.state.operations + 1, _, rfl, records.closed⟩

include active calm records in
/-- Inside a transaction an operation does what the ledger says. -/
theorem perform_performs (operation : Operation) :
    Performs c written (c.perform setup operation) (Ledger.perform written operation) := by
  cases operation with
  | fetch table key => exact fetch_performs active calm records table key
  | put table key document => exact put_performs active calm records table key document
  | addTable table keyField => exact addTable_performs active calm records table keyField
  | removeTable table => exact removeTable_performs active calm records table
  | page table after limit =>
    refine .of_read records ?_
    rw [perform, Session.fetchPage, run_faulty active calm, ← records.page]
    rfl
  | keyField table =>
    refine .of_read records ?_
    rw [perform, Session.keyField, run_faulty active calm, ← records.keyFields]
    rfl
  | tableNames =>
    refine .of_read records ?_
    rw [perform, Session.tableNames, run_faulty active calm, ← records.names]
    rfl

end Active

/-! ## Steps -/

variable {state : StoreState} {before : Database} {kept written : Postings}

/-- Where no transaction runs, all that is seen is permanent. -/
theorem shows_idle (records : state.database.Records kept) (calm : state.faults = []) :
    Shows ⟨state, none⟩ ⟨kept, none⟩ :=
  ⟨rfl, records, show state.database.Records (kept ++ []) by rwa [List.append_nil], calm⟩

theorem Shows.step_idle (h : Shows ⟨state, none⟩ ⟨kept, none⟩) (setup : Setup) (step : Step) :
    (Connection.step setup ⟨state, none⟩ step).1 = (Ledger.step ⟨kept, none⟩ step).1 ∧
      (Connection.step setup ⟨state, none⟩ step).2.Shows (Ledger.step ⟨kept, none⟩ step).2 := by
  cases step with
  | enter => exact ⟨rfl, rfl, h.permanent, h.current, h.calm⟩
  | leave failed => exact ⟨rfl, h⟩
  | perform operation =>
    rw [Connection.step, perform_of_inactive rfl]
    exact ⟨rfl, h⟩

theorem Shows.step_running (h : Shows ⟨state, some before⟩ ⟨kept, some written⟩) (setup : Setup)
    (step : Step) :
    (Connection.step setup ⟨state, some before⟩ step).1 =
        (Ledger.step ⟨kept, some written⟩ step).1 ∧
      (Connection.step setup ⟨state, some before⟩ step).2.Shows
        (Ledger.step ⟨kept, some written⟩ step).2 := by
  cases step with
  | enter => exact ⟨rfl, h⟩
  | leave failed =>
    cases failed with
    | false => exact ⟨rfl, shows_idle h.current h.calm⟩
    | true => exact ⟨rfl, shows_idle h.permanent h.calm⟩
  | perform operation =>
    obtain ⟨n, db, done, records⟩ :=
      @perform_performs setup ⟨state, some before⟩ rfl h.calm _ h.current operation
    rw [Connection.step, done, show Ledger.step ⟨kept, some written⟩ (.perform operation) =
      match Ledger.perform (Ledger.seen ⟨kept, some written⟩) operation with
        | .ok (reply, more) => (.ok reply, ⟨kept, some (written ++ more)⟩)
        | .error f => (.error f, ⟨kept, some written⟩) from rfl]
    cases said : Ledger.perform (Ledger.seen ⟨kept, some written⟩) operation with
    | error f =>
      rw [said] at records
      cases records
      exact ⟨rfl, h.active, h.permanent, h.current, h.calm⟩
    | ok reply =>
      rw [said] at records
      have onward : db.Records (kept ++ (written ++ reply.2)) := by
        rw [← List.append_assoc]
        exact records
      exact ⟨rfl, rfl, h.permanent, onward, h.calm⟩

/-- A step is answered as the ledger says, and the connection still shows the ledger. -/
theorem Shows.step (h : c.Shows l) (setup : Setup) (step : Step) :
    (c.step setup step).1 = (l.step step).1 ∧ (c.step setup step).2.Shows (l.step step).2 := by
  rcases c with ⟨state, _ | before⟩ <;> rcases l with ⟨kept, _ | written⟩
  · exact h.step_idle setup step
  · cases h.active
  · cases h.active
  · exact h.step_running setup step

theorem Shows.after (h : c.Shows l) (setup : Setup) (steps : List Step) :
    c.answers setup steps = l.answers steps ∧ (c.after setup steps).Shows (l.after steps) := by
  induction steps generalizing c l with
  | nil => exact ⟨rfl, h⟩
  | cons step rest ih =>
    obtain ⟨answered, shown⟩ := h.step setup step
    obtain ⟨others, last⟩ := ih shown
    refine ⟨?_, last⟩
    rw [answers, Ledger.answers, answered, others]

/-! ## Transactions -/

/-- An operation neither enters nor leaves a transaction. -/
theorem saved_perform (setup : Setup) (c : Connection) (operation : Operation) :
    (c.perform setup operation).2.saved = c.saved := by
  have kept {α : Type} (x : Run α) : (c.run setup x).2.saved = c.saved := by
    unfold run
    split <;> rfl
  cases operation with
  | fetch table key =>
    rw [perform, fetch]
    cases key.encodeKey with
    | error fault => rfl
    | ok code => exact kept _
  | _ => exact kept _

/-- What was saved when a transaction was entered is kept until it is left. -/
theorem saved_after (setup : Setup) {c : Connection} (entered : c.saved = some before)
    {steps : List Step} (within : ∀ failed, .leave failed ∉ steps) :
    (c.after setup steps).saved = some before := by
  induction steps generalizing c with
  | nil => exact entered
  | cons step rest ih =>
    refine ih ?_ fun failed mem => within failed (List.mem_cons_of_mem step mem)
    cases step with
    | enter =>
      unfold step
      dsimp only
      rw [enter, isActive, entered]
      exact entered
    | leave failed => exact absurd List.mem_cons_self (within failed)
    | perform operation => exact (saved_perform setup c operation).trans entered

/-- A transaction that is left with an error restores the database, and any other one keeps it. -/
theorem after_leave (setup : Setup) (idle : c.saved = none) {body : List Step}
    (within : ∀ failed, .leave failed ∉ body) (failed : Bool) :
    (c.after setup (.enter :: body ++ [.leave failed])).state.database =
      if failed then c.state.database else (c.after setup (.enter :: body)).state.database := by
  have entered : c.step setup .enter = (.ok .nothing, ⟨c.state, some c.state.database⟩) := by
    obtain ⟨state, saved⟩ := c
    cases idle
    rfl
  have saved : (c.after setup (.enter :: body)).saved = some c.state.database := by
    rw [after, List.foldl_cons, entered]
    exact saved_after setup rfl within
  rw [after, List.foldl_append]
  show ((c.after setup (.enter :: body)).leave failed).state.database = _
  unfold leave
  rw [saved]
  cases failed <;> rfl

/-- An operation that fails writes nothing. -/
theorem Shows.unchanged (h : c.Shows l) {operation : Operation} {f : Failure}
    (failed : (c.perform setup operation).1 = .error f) :
    (c.perform setup operation).2.state.database = c.state.database := by
  cases active : c.saved with
  | none => rw [perform_of_inactive active]
  | some before =>
    obtain ⟨n, db, done, records⟩ :=
      @perform_performs setup c (by rw [active]; rfl) h.calm l.seen h.current operation
    rw [done] at failed ⊢
    cases said : Ledger.perform l.seen operation with
    | ok reply =>
      rw [said] at failed
      cases failed
    | error g =>
      rw [said] at records
      exact records

theorem Operation.refusal_cases (operation : Operation) :
    operation.refusal = .sessionInactive ∨ ∃ table key fault, operation = .fetch table key ∧
      key.encodeKey = .error fault ∧ operation.refusal = .encoding fault := by
  cases operation with
  | fetch table key =>
    rw [refusal]
    cases coded : key.encodeKey with
    | ok code => exact .inl rfl
    | error fault => exact .inr ⟨table, key, fault, rfl, coded, rfl⟩
  | _ => exact .inl rfl

/-- A connection is a transaction store. Steps are answered by a ledger of the writes, of which the
permanent ones and those of the running transaction are read; at most one row stands at an address.
Entering twice and operating outside change nothing, what fails inside undoes nothing, and leaving
with an error brings back the database as it was when the transaction was entered. -/
theorem transactional (setup : Setup) (steps : List Step) :
    let c := empty.after setup steps
    (empty.answers setup steps = Ledger.empty.answers steps ∧
      c.Shows (Ledger.empty.after steps)) ∧
    (c.isActive = true → c.step setup .enter = (.error .sessionActive, c)) ∧
    (c.isActive = false → ∀ operation, ∃ f, c.step setup (.perform operation) = (.error f, c) ∧
      (f = .sessionInactive ∨ ∃ table key fault, operation = .fetch table key ∧
        key.encodeKey = .error fault ∧ f = .encoding fault)) ∧
    (∀ operation f, (c.step setup (.perform operation)).1 = .error f →
      (c.step setup (.perform operation)).2.state.database = c.state.database ∧
        (c.step setup (.perform operation)).2.saved = c.saved) ∧
    (c.isActive = false → ∀ body : List Step, (∀ failed, .leave failed ∉ body) →
      (c.after setup (.enter :: body ++ [.leave true])).state.database = c.state.database ∧
        (c.after setup (.enter :: body ++ [.leave false])).state.database =
          (c.after setup (.enter :: body)).state.database) ∧
    ∀ table code, c.state.database.count table code ≤ 1 ∧ c.permanent.count table code ≤ 1 := by
  intro c
  obtain ⟨answered, shown⟩ := Shows.empty.after setup steps
  have idle_iff : c.isActive = false ↔ c.saved = none := by simp [isActive]
  refine ⟨⟨answered, shown⟩, fun active => ?_, fun idle operation => ?_, fun operation f failed => ?_,
    fun idle body within => ⟨?_, ?_⟩, fun table code => ?_⟩
  · rw [step, enter, if_pos active]
  · exact ⟨_, perform_of_inactive (idle_iff.1 idle) operation, operation.refusal_cases⟩
  · exact ⟨shown.unchanged failed, saved_perform setup c operation⟩
  · exact after_leave setup (idle_iff.1 idle) within true
  · exact after_leave setup (idle_iff.1 idle) within false
  · exact ⟨shown.current.rows.count_le table code, shown.permanent.rows.count_le table code⟩

/-- A key without a code is refused before the transaction is asked for. -/
theorem fetch_uncoded_idle :
    (empty.step .echo (.perform (.fetch "t" (.foreign ⟨.object, 0⟩)))).1 =
        .error (.encoding (.unsupported "object")) ∧
      Failure.kind (.encoding (.unsupported "object")) = .type ∧
        Failure.sessionInactive.kind = .runtime := ⟨rfl, rfl, rfl⟩

end Connection

end Folio
