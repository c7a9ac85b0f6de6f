import Folio.Proofs.Isolation
import Folio.Proofs.Keeping
import Folio.Proofs.OneByOne
/-!
# The order of new documents

An insert processes its documents key by key, and the keys in the order in which the payload first
names them. A row is made when a document is inserted and stays where it is while it is overwritten,
so the rows that a request made stand in the order of their keys, behind all that was there before.
This is not the order in which the inserted documents stand in the payload: where the first document
of a key is not inserted, a later one is, and it comes before a document of another key that stands
between the two. The first place of a key is its rank here, and the invariant of a run is that the
rows made so far ascend in rank and have no greater rank than the target at work.
-/

namespace Folio

open Run StoreState

/-! ## Groups by rank -/

namespace Writer

/-- The place of the first task with a code. -/
def rank (tasks : List Task) (code : String) : Nat := tasks.findIdx (hasCode code)

theorem rank_append_of_mem {tasks : List Task} {code : String}
    (h : ∃ task ∈ tasks, task.key.code = code) (more : List Task) :
    rank (tasks ++ more) code = rank tasks code := by
  obtain ⟨task, ht, rfl⟩ := h
  unfold rank
  rw [List.findIdx_append, if_pos]
  exact List.findIdx_lt_length_of_exists ⟨task, ht, beq_self_eq_true _⟩

theorem rank_lt_of_mem {tasks : List Task} {code : String}
    (h : ∃ task ∈ tasks, task.key.code = code) : rank tasks code < tasks.length := by
  obtain ⟨task, ht, rfl⟩ := h
  exact List.findIdx_lt_length_of_exists ⟨task, ht, beq_self_eq_true _⟩

theorem length_le_rank {tasks : List Task} {code : String} (h : tasks.filter (hasCode code) = [])
    (task : Task) : tasks.length ≤ rank (tasks ++ [task]) code := by
  have none : tasks.findIdx (hasCode code) = tasks.length :=
    List.findIdx_eq_length.2 fun task ht => Bool.eq_false_iff.2 (List.filter_eq_nil_iff.1 h task ht)
  unfold rank
  rw [List.findIdx_append, none, if_neg (lt_irrefl _)]
  exact Nat.le_add_left _ _

/-- A group is named by the code of a task. -/
theorem exists_of_mem_groups {tasks : List Task} {code : String}
    (h : code ∈ (groups tasks).map Prod.fst) : ∃ task ∈ tasks, task.key.code = code := by
  induction tasks using List.reverseRecOn with
  | nil => cases h
  | append_singleton tasks task ih =>
    have last : task ∈ tasks ++ [task] := List.mem_append_right _ List.mem_cons_self
    rw [groups_concat, Entries.map_fst_put] at h
    have before : code ∈ (groups tasks).map Prod.fst →
        ∃ other ∈ tasks ++ [task], other.key.code = code := fun found =>
      (ih found).imp fun _ hm => ⟨List.mem_append_left _ hm.1, hm.2⟩
    split at h
    · exact before h
    · rcases List.mem_append.1 h with h | h
      · exact before h
      · exact ⟨task, last, (List.mem_singleton.1 h).symm⟩

/-- Groups come in the order of their ranks. -/
theorem groups_ranked (tasks : List Task) :
    ((groups tasks).map Prod.fst).Pairwise fun a b => rank tasks a < rank tasks b := by
  induction tasks using List.reverseRecOn with
  | nil => exact .nil
  | append_singleton tasks task ih =>
    have grown : ((groups tasks).map Prod.fst).Pairwise
        fun a b => rank (tasks ++ [task]) a < rank (tasks ++ [task]) b := by
      refine ih.imp_of_mem fun ha hb h => ?_
      rw [rank_append_of_mem (exists_of_mem_groups ha),
        rank_append_of_mem (exists_of_mem_groups hb)]
      exact h
    rw [groups_concat, Entries.map_fst_put]
    split
    · exact grown
    · rename_i absent
      -- A new group is named by the last task, whose code none of the others has.
      have fresh : tasks.filter (hasCode task.key.code) = [] := by
        rw [← find?_groups, Option.not_isSome_iff_eq_none.1 absent]
        rfl
      refine List.pairwise_append.2 ⟨grown, List.pairwise_singleton _ _, fun a ha b hb => ?_⟩
      rw [List.mem_singleton.1 hb, rank_append_of_mem (exists_of_mem_groups ha)]
      exact (rank_lt_of_mem (exists_of_mem_groups ha)).trans_le (length_le_rank fresh task)

/-- Tasks are processed in the order of their ranks. -/
theorem inTurn_ranked (tasks : List Task) : (inTurn tasks).Pairwise fun a b =>
    a.key.code = b.key.code ∨ rank tasks a.key.code < rank tasks b.key.code := by
  have coded : ∀ e ∈ groups tasks, ∀ task ∈ e.2, task.key.code = e.1 := by
    rintro ⟨code, group⟩ he task ht
    rw [eq_filter_of_mem_groups he] at ht
    simpa [hasCode] using (List.mem_filter.1 ht).2
  refine List.pairwise_flatten.2 ⟨fun group hg => ?_, ?_⟩
  · obtain ⟨e, he, rfl⟩ := List.mem_map.1 hg
    exact List.pairwise_of_forall_mem_list fun a ha b hb =>
      .inl ((coded e he a ha).trans (coded e he b hb).symm)
  · refine List.pairwise_map.2 ((List.pairwise_map.1 (groups_ranked tasks)).imp_of_mem ?_)
    intro e f he hf h a ha b hb
    rw [coded e he a ha, coded f hf b hb]
    exact .inr h

end Writer

/-! ## Rows in the course of an insert -/

/-- The codes of the keys that documents were inserted under, in the order in which they were. -/
def arrivals (os : List DocumentOutcome) : List String :=
  (os.filter fun o => o.kind = .inserted).map fun o => o.key.code

theorem arrivals_cons (o : DocumentOutcome) (os : List DocumentOutcome) :
    arrivals (o :: os) = arrivals [o] ++ arrivals os := by
  unfold arrivals
  rw [← List.map_append, ← List.filter_append]
  rfl

theorem arrivals_of_ne {o : DocumentOutcome} (h : o.kind ≠ .inserted) : arrivals [o] = [] := by
  unfold arrivals
  rw [List.filter_singleton, decide_eq_false h]
  rfl

theorem arrivals_of_inserted {o : DocumentOutcome} (h : o.kind = .inserted) :
    arrivals [o] = [o.key.code] := by
  unfold arrivals
  rw [List.filter_singleton, decide_eq_true h]
  rfl

/-- The rows of a table after some documents arrived in it: first those that were there before and
stayed, each with its number, then those that were made, in ascending rank. -/
structure Arranged (rank : String → Nat) (before : List Row) (arrived : List String)
    (stayed made : List Row) : Prop where
  stays : (stayed.map fun r => (r.seq, r.code)).Sublist (before.map fun r => (r.seq, r.code))
  old : ∀ r ∈ stayed, r.code ∉ arrived
  new : ∀ r ∈ made, r.code ∈ arrived
  ascending : made.Pairwise fun r s => rank r.code < rank s.code

namespace Arranged

variable {rank : String → Nat} {before stayed made : List Row} {arrived : List String}

theorem start (rank : String → Nat) (before : List Row) : Arranged rank before [] before [] :=
  ⟨.refl _, fun _ _ => List.not_mem_nil, fun _ h => (nomatch h), .nil⟩

theorem congr {others : List String} (h : Arranged rank before arrived stayed made)
    (same : ∀ code, code ∈ arrived ↔ code ∈ others) : Arranged rank before others stayed made where
  stays := h.stays
  old r hr := (same r.code).not.1 (h.old r hr)
  new r hr := (same r.code).1 (h.new r hr)
  ascending := h.ascending

/-- Rows that are overwritten stay in their places. -/
theorem map (h : Arranged rank before arrived stayed made) {f : Row → Row}
    (seq : ∀ r, (f r).seq = r.seq) (code : ∀ r, (f r).code = r.code) :
    Arranged rank before arrived (stayed.map f) (made.map f) where
  stays := by
    rw [List.map_map]
    simpa [Function.comp_def, seq, code] using h.stays
  old := by
    intro r hr
    obtain ⟨s, hs, rfl⟩ := List.mem_map.1 hr
    rw [code]
    exact h.old s hs
  new := by
    intro r hr
    obtain ⟨s, hs, rfl⟩ := List.mem_map.1 hr
    rw [code]
    exact h.new s hs
  ascending := by
    simpa [List.pairwise_map, code] using h.ascending

/-- Where rows are taken away, the others stay in their places. -/
theorem filter (h : Arranged rank before arrived stayed made) (p : Row → Bool) :
    Arranged rank before arrived (stayed.filter p) (made.filter p) where
  stays := (List.filter_sublist.map _).trans h.stays
  old r hr := h.old r (List.mem_filter.1 hr).1
  new r hr := h.new r (List.mem_filter.1 hr).1
  ascending := h.ascending.filter p

/-- A document of a new key arrives behind all others if its rank is not less than theirs. -/
theorem concat (h : Arranged rank before arrived stayed made) {row : Row}
    (absent : ∀ r ∈ stayed ++ made, r.code ≠ row.code)
    (behind : ∀ code ∈ arrived, code = row.code ∨ rank code < rank row.code) :
    Arranged rank before (arrived ++ [row.code]) stayed (made ++ [row]) where
  stays := h.stays
  old r hr := by
    rw [List.mem_append, List.mem_singleton, not_or]
    exact ⟨h.old r hr, absent r (List.mem_append_left _ hr)⟩
  new r hr := by
    rcases List.mem_append.1 hr with hr | hr
    · exact List.mem_append_left _ (h.new r hr)
    · rw [List.mem_singleton.1 hr]
      exact List.mem_append_right _ List.mem_cons_self
  ascending := by
    refine List.pairwise_append.2 ⟨h.ascending, List.pairwise_singleton _ _, fun r hr s hs => ?_⟩
    rw [List.mem_singleton.1 hs]
    exact (behind r.code (h.new r hr)).resolve_left (absent r (List.mem_append_right _ hr))

end Arranged

section Landing

variable {setup : Setup} {request : Request} {task : Task} {tasks : List Task}
variable {db next last : Database} {o : DocumentOutcome} {os : List DocumentOutcome}
variable {rank : String → Nat} {before stayed made : List Row} {arrived : List String}

/-- A target that lands leaves the rows arranged, if it has no rank less than those that arrived. -/
theorem Landed.arranged (landed : Landed setup request task db o next)
    (outcome : IsOutcomeOf task o)
    (h : Arranged rank before arrived stayed made)
    (rows : Target.rowsOf db request.table = stayed ++ made)
    (behind : ∀ code ∈ arrived, code = task.key.code ∨ rank code < rank task.key.code) :
    ∃ stays makes, Target.rowsOf next request.table = stays ++ makes ∧
      Arranged rank before (arrived ++ arrivals [o]) stays makes := by
  cases landed with
  | kept kind =>
    have none : o.kind ≠ .inserted := fun eq => nomatch eq ▸ kind
    rw [arrivals_of_ne none, List.append_nil]
    exact ⟨stayed, made, rows, h⟩
  | wrote d kind =>
    cases found : db.find? request.table task.key.code with
    | some old =>
      have none : o.kind ≠ .inserted := by
        rw [kind, found]
        simp
      rw [arrivals_of_ne none, List.append_nil,
        Database.rowsOf_write_of_isSome (by rw [found]; rfl), rows, List.map_append]
      exact ⟨_, _, rfl, h.map Database.overwrite_seq Database.overwrite_code⟩
    | none =>
      have inserted : o.kind = .inserted := by
        rw [kind, found]
        rfl
      rw [arrivals_of_inserted inserted, outcome.key, Database.rowsOf_write_of_eq_none found, rows,
        List.append_assoc]
      refine ⟨_, _, rfl, @Arranged.concat _ _ _ _ _ h ⟨_, _, task.key.code, d⟩
        (fun r hr same => ?_) behind⟩
      rw [← rows] at hr
      obtain ⟨mem, table⟩ := List.mem_filter.1 hr
      have := Database.find?_eq_none.1 found r mem
      rw [(Database.isAt_iff r _ _).2 ⟨beq_iff_eq.1 table, same⟩] at this
      cases this
  | removed old kind =>
    have none : o.kind ≠ .inserted := by
      rw [kind]
      simp
    rw [arrivals_of_ne none, List.append_nil, Database.rowsOf_remove, rows, List.filter_append]
    exact ⟨_, _, rfl, h.filter _⟩

/-- Targets that land in the order of their ranks leave the rows arranged. -/
theorem LandedAll.arranged (landed : LandedAll setup request tasks db os last)
    (h : Arranged rank before arrived stayed made)
    (rows : Target.rowsOf db request.table = stayed ++ made)
    (ranked : tasks.Pairwise fun a b =>
      a.key.code = b.key.code ∨ rank a.key.code < rank b.key.code)
    (behind : ∀ code ∈ arrived, ∀ task ∈ tasks,
      code = task.key.code ∨ rank code < rank task.key.code) :
    ∃ stays makes, Target.rowsOf last request.table = stays ++ makes ∧
      Arranged rank before (arrived ++ arrivals os) stays makes := by
  induction landed generalizing arrived stayed made with
  | nil db => exact ⟨stayed, made, rows, by simpa [arrivals] using h⟩
  | @cons task tasks o os db next last outcome landed _ ih =>
    obtain ⟨first, ranked⟩ := List.pairwise_cons.1 ranked
    obtain ⟨stays, makes, rows, h⟩ := landed.arranged outcome h rows fun code hc =>
      behind code hc task List.mem_cons_self
    rw [arrivals_cons, ← List.append_assoc]
    refine ih h rows ranked fun code hc other ho => ?_
    rcases List.mem_append.1 hc with hc | hc
    · exact behind code hc other (List.mem_cons_of_mem _ ho)
    · by_cases inserted : o.kind = .inserted
      · rw [arrivals_of_inserted inserted, outcome.key] at hc
        rw [List.mem_singleton.1 hc]
        exact first other ho
      · rw [arrivals_of_ne inserted] at hc
        cases hc

end Landing

/-! ## Places in the payload -/

/-- The first place of the payload that has a key with the code. -/
def firstPlace (os : List DocumentOutcome) (code : String) : Nat := os.findIdx (hasKey code)

/-- The last place of the payload whose document was inserted under the code. -/
def lastInserted (os : List DocumentOutcome) (code : String) : Option Nat :=
  ((os.filter fun o => o.kind = .inserted && hasKey code o).map Outcome.index).max?

/-- The document of one row was inserted at an earlier place of the payload than that of another. -/
def InsertedBefore (os : List DocumentOutcome) (r s : Row) : Prop :=
  ∀ i ∈ lastInserted os r.code, ∀ j ∈ lastInserted os s.code, i < j

variable {tasks : List Task} {os : List DocumentOutcome} {code : String}

theorem mem_arrivals : code ∈ arrivals os ↔ ∃ o ∈ os, o.kind = .inserted ∧ o.key.code = code := by
  unfold arrivals
  simp [and_assoc]

theorem arrivals_inOrder : code ∈ arrivals (Writer.inOrder os) ↔ code ∈ arrivals os := by
  rw [mem_arrivals, mem_arrivals]
  simp only [(Writer.inOrder_perm os).mem_iff]

theorem lastInserted_inOrder (os : List DocumentOutcome) (code : String) :
    lastInserted (Writer.inOrder os) code = lastInserted os code := by
  have perm := ((Writer.inOrder_perm os).filter fun o => o.kind = .inserted && hasKey code o).map
    Outcome.index
  refine Option.ext fun i => ?_
  unfold lastInserted
  rw [List.max?_eq_some_iff, List.max?_eq_some_iff]
  simp only [perm.mem_iff]

/-- Outcomes stand in the places of their tasks, and a key first comes where its first task does. -/
theorem firstPlace_eq_rank (h : List.Forall₂ IsOutcomeOf tasks os) (code : String) :
    firstPlace os code = Writer.rank tasks code := by
  induction h with
  | nil => rfl
  | cons outcome _ ih =>
    unfold firstPlace Writer.rank at ih ⊢
    rw [List.findIdx_cons, List.findIdx_cons, ih, hasKey, Writer.hasCode, outcome.key]

theorem firstPlace_le {o : DocumentOutcome}
    (places : os.map Outcome.index = List.range' 0 os.length) (ho : o ∈ os) :
    firstPlace os o.key.code ≤ o.index := by
  obtain ⟨i, hi, rfl⟩ := List.mem_iff_getElem.1 ho
  have place : os[i].index = i := by
    have := congrArg (·[i]?) places
    simpa [hi] using this
  rw [place]
  by_contra less
  have := List.not_of_lt_findIdx (not_le.1 less)
  rw [hasKey, beq_self_eq_true] at this
  cases this

/-- A row that ranks before another was inserted before it, if it was by the first of its key. -/
theorem insertedBefore_of_firstPlace (places : os.map Outcome.index = List.range' 0 os.length)
    {r s : Row} (rank : firstPlace os r.code < firstPlace os s.code)
    (first : lastInserted os r.code = some (firstPlace os r.code)) : InsertedBefore os r s := by
  intro i hi j hj
  rw [first] at hi
  cases hi
  obtain ⟨o, ho, rfl⟩ := List.mem_map.1 (List.max?_mem hj)
  obtain ⟨mem, own⟩ := List.mem_filter.1 ho
  have own : o.key.code = s.code := by
    simp only [Bool.and_eq_true, hasKey, beq_iff_eq] at own
    exact own.2
  exact rank.trans_le (own ▸ firstPlace_le places mem)

/-! ## Inserts -/

namespace Writer

variable {setup : Setup} {s t : StoreState} {options : Options}

/-- With a single worker the targets of a request are processed one after the other. -/
theorem processTasks_of_single (single : setup.config.isParallel = false) (request : Request)
    (tasks : List Task) :
    (processTasks request tasks).exec setup s =
      (processAll request (inTurn tasks)).exec setup s := by
  unfold processTasks
  rw [exec_bind, exec_read]
  simp only [single, Bool.false_and]
  rfl

/-- Where the outcomes of an insert leave the rows of its table. -/
theorem outcomes_arranged (hp : 0 < setup.pageSize) (h : s.database.InOrder)
    (single : setup.config.isParallel = false) {table : String} {payload : Term}
    {os : List DocumentOutcome}
    (came : (outcomes (.table table) (.insert payload) options).exec setup s = (.ok os, t)) :
    t.database.InOrder ∧ os.length = Target.payloadSize payload ∧
      os.map Outcome.index = List.range' 0 os.length ∧
      ∃ stayed made, Target.rowsOf t.database table = stayed ++ made ∧
        Arranged (firstPlace os) (Target.rowsOf s.database table) (arrivals os) stayed made := by
  obtain ⟨⟨request, tasks⟩, p, planned, rest⟩ := exists_of_exec_bind came
  have plans := @plan_ends setup s hp h (.table table) (.insert payload) options
  rw [Ensures, planned] at plans
  obtain ⟨quiet, plans⟩ := plans
  obtain ⟨name, field, -, ⟨keys, places⟩, lists, -⟩ := plans request tasks rfl
  obtain rfl : request.table = table := name
  obtain ⟨found, u, processed, ended⟩ := exists_of_exec_bind rest
  cases ended
  rw [processTasks_of_single single] at processed
  have landed := @processAll_ends setup request (inTurn tasks) p fun task ht =>
    keys task ((inTurn_perm tasks).mem_iff.1 ht)
  rw [Ensures, processed] at landed
  have landed : LandedAll setup request (inTurn tasks) s.database found t.database :=
    quiet.database ▸ landed
  have outcomes : List.Forall₂ IsOutcomeOf tasks (inOrder found) :=
    forall₂_inOrder landed.outcomes (fun _ _ outcome => outcome.index)
      (places ▸ List.pairwise_lt_range')
  have length : (inOrder found).length = tasks.length := outcomes.length_eq.symm
  have first : firstPlace (inOrder found) = rank tasks := by
    funext code
    exact firstPlace_eq_rank outcomes code
  obtain ⟨stayed, made, rows, arranged⟩ := landed.arranged (.start (rank tasks) _)
    (List.append_nil _).symm (inTurn_ranked tasks) fun _ h => absurd h List.not_mem_nil
  refine ⟨landed.inOrder h field, length.trans lists, ?_, stayed, made, rows, ?_⟩
  · rw [map_index outcomes fun _ _ outcome => outcome.index, places, length]
  · rw [first]
    exact arranged.congr fun code => by rw [List.nil_append, arrivals_inOrder]

/-- A scan shows the documents of a table in the order of its rows. -/
theorem docs_of_select (hp : 0 < setup.pageSize) (h : s.database.InOrder) {table : String}
    {docs : List Document}
    (came : (Store.select table .null).exec setup s = (.ok docs, t)) :
    docs = (Target.rowsOf s.database table).map Row.body := by
  have listed := @Cursor.of_collect _ setup s .ok hp h.ordered _ _ _ (congrArg Prod.fst came)
  rw [Scan.matching_null] at listed
  unfold Target.rowsOf
  generalize s.database.rows.filter _ = rows at listed ⊢
  clear came
  induction listed with
  | nil => rfl
  | cons shown _ ih => rw [List.map_cons, ← ih, Except.ok.inj shown]

/-- New documents stand in the order of their keys. In every reachable store, take an insert that
comes to a report with a single worker, whatever documents share a key, whatever the conflict policy
and the hook decide, and whatever goes wrong with single documents. Then the table shows first the
documents that were there before and stayed, in their old order, and behind them those that the
insert made and that are still there. These stand in the order in which the payload first names
their keys. So of two of them the one that stands first was inserted at an earlier place of the
payload, if it was inserted by the first document of its key. -/
theorem insert_arranged {c : Console} (hc : c.Reachable) (hp : 0 < setup.pageSize)
    (single : setup.config.isParallel = false)
    {selected payload conflict durability returnChanges : Term} {table : String}
    (selects : target selected = .selector (.table table)) {report : WriteReport}
    (came : (insert selected payload conflict durability returnChanges).exec setup c.state =
      (.ok report, t)) :
    ∃ options os, optionsOf conflict durability returnChanges = .ok options ∧
      ((outcomes (.table table) (.insert payload) options).exec setup c.state).1 = .ok os ∧
      report = Report.ofOutcomes options.detail os ∧
      os.map Outcome.index = List.range' 0 (Target.payloadSize payload) ∧
      ∃ stayed made, Target.rowsOf t.database table = stayed ++ made ∧
        Arranged (firstPlace os) (Target.rowsOf c.state.database table) (arrivals os) stayed made ∧
        made.Pairwise (fun r s =>
          lastInserted os r.code = some (firstPlace os r.code) → InsertedBefore os r s) ∧
        ∀ docs u, (Store.select table .null).exec setup t = (.ok docs, u) →
          docs = (stayed ++ made).map Row.body := by
  have rows := hc.sound.rows
  obtain ⟨options, given, -⟩ := exists_of_exec_ofExcept came
  rw [insert_eq_execute selects given] at came
  have reported := @execute_outcomes setup c.state (.table table) (.insert payload) options
  rw [Ensures, came] at reported
  obtain ⟨reported, counted⟩ := reported
  generalize ended : (outcomes _ _ _).exec setup c.state = run at reported counted
  obtain ⟨f | os, last⟩ := run
  · cases reported
  · cases reported
    obtain ⟨ordered, size, places, stayed, made, found, arranged⟩ :=
      outcomes_arranged hp rows single ended
    rw [← counted.database] at ordered found
    refine ⟨options, os, given, congrArg Prod.fst ended, rfl, size ▸ places, stayed, made, found,
      arranged, ?_, ?_⟩
    · exact arranged.ascending.imp fun rank => insertedBefore_of_firstPlace places rank
    · intro docs u shown
      rw [← found]
      exact docs_of_select hp ordered shown

end Writer

/-! ## A key that is not inserted at once -/

/-- A setup whose hook refuses drafts. -/
def Setup.publishing : Setup where
  config := Setup.echo.config
  pageSize := 2
  functions := fun _ _ arguments =>
    let new := arguments.getLast?.getD .null
    match Entries.find? new.entries (.text "draft") with
    | some _ => .ok (.mark .abort)
    | none => .ok new
  freshKey := Setup.echo.freshKey

/-- A table with a hook and one document. -/
def Console.press : Console := .after .echo
  [.command (.create (.text "people") (.text "id")),
    .insert (person (.int 7) "eve") (.text "error"),
    .command (.setHook "people" (.function ⟨0, "publish"⟩))]

theorem Console.reachable_press : press.Reachable := by
  refine reachable_after Setup.isSettled_echo (by decide) ?_
  simp [Entry.IsManaged, Entry.insert, Command.IsManaged, person, Term.IsSettled,
    Term.SettledEntries, Term.labels, Term.label?, Term.text, Term.int]

/-- A draft with a key, a document with another key, and a document with the key of the draft. -/
def drafts : Term :=
  .list [.mapping [(.text "id", .int 1), (.text "draft", .bool true)], person (.int 2) "bob",
    person (.int 1) "ann"]

/-- What an insert into a table of a console comes to: the outcomes as they were processed, and the
rows that it leaves. -/
def Console.inserted (setup : Setup) (c : Console) (payload : Term) (options : Options) :
    Option (List DocumentOutcome × List Row) :=
  (Writer.processed? setup c.state (.table "people") (.insert payload) options).map
    fun (found, last) => (found, Target.rowsOf last.database "people")

theorem Console.insert_of_inserted {setup : Setup} {c : Console} {payload : Term}
    {found : List DocumentOutcome} {rows : List Row}
    (h : c.inserted setup payload .standard = some (found, rows)) :
    ∃ report t, (Writer.insert (.text "people") payload (.text "error") (.text "hard")
        (.bool false)).exec setup c.state = (.ok report, t) ∧
      ((Writer.outcomes (.table "people") (.insert payload) .standard).exec setup c.state).1 =
        .ok (Writer.inOrder found) ∧
      Target.rowsOf t.database "people" = rows := by
  obtain ⟨⟨os, last⟩, processed, ended⟩ := Option.map_eq_some_iff.1 h
  cases ended
  obtain ⟨outcomes, t, came, counted⟩ := Writer.execute_of_processed? processed
  refine ⟨.ofOutcomes Options.standard.detail (Writer.inOrder found), t, ?_,
    congrArg Prod.fst outcomes, by rw [counted.database]⟩
  have inserts : Writer.target (.text "people") = .selector (.table "people") := rfl
  rw [Writer.insert_eq_execute inserts rfl]
  exact came

/-- New documents do not always stand in the order in which they were inserted: the document with
the key of a refused draft comes before another one, which the payload has before it. -/
theorem Console.drafts_not_in_order :
    press.Reachable ∧ Setup.publishing.config.isParallel = false ∧ ∃ report t os,
      (Writer.insert (.text "people") drafts (.text "error") (.text "hard") (.bool false)).exec
        .publishing press.state = (.ok report, t) ∧
      ((Writer.outcomes (.table "people") (.insert drafts) .standard).exec .publishing
        press.state).1 = .ok os ∧
      ((Target.rowsOf t.database "people").map fun r => (r.code, lastInserted os r.code)) =
        [("7", none), ("1", some 2), ("2", some 1)] ∧
      ¬ (Target.rowsOf t.database "people").Pairwise (InsertedBefore os) := by
  have shown : (press.inserted .publishing drafts .standard).map (fun (found, rows) =>
      rows.map fun r => (r.code, lastInserted found r.code)) =
        some [("7", none), ("1", some 2), ("2", some 1)] := by decide +kernel
  obtain ⟨⟨found, rows⟩, came, listed⟩ := Option.map_eq_some_iff.1 shown
  obtain ⟨report, t, inserted, outcomes, rfl⟩ := insert_of_inserted came
  simp only [← lastInserted_inOrder found] at listed
  refine ⟨reachable_press, by decide +kernel, report, t, _, inserted, outcomes, listed,
    fun ordered => ?_⟩
  have places : ((Target.rowsOf t.database "people").map fun r =>
      (r.code, lastInserted (Writer.inOrder found) r.code)).Pairwise
        fun x y => ∀ i ∈ x.2, ∀ j ∈ y.2, i < j := List.pairwise_map.2 ordered
  rw [listed] at places
  simp at places

/-- Two documents arrive behind the one that was there, in the order of their keys. -/
theorem Writer.insert_arranged_drafts : ∃ report t os stayed made,
    (insert (.text "people") drafts (.text "error") (.text "hard") (.bool false)).exec
      .publishing Console.press.state = (.ok report, t) ∧
    (stayed ++ made).map Row.code = ["7", "1", "2"] ∧
    Arranged (firstPlace os) (Target.rowsOf Console.press.state.database "people") (arrivals os)
      stayed made := by
  have shown : (Console.press.inserted .publishing drafts .standard).map (fun (_, rows) =>
      rows.map Row.code) = some ["7", "1", "2"] := by decide +kernel
  obtain ⟨⟨found, rows⟩, came, listed⟩ := Option.map_eq_some_iff.1 shown
  obtain ⟨report, t, inserted, -, rfl⟩ := Console.insert_of_inserted came
  have selects : target (.text "people") = .selector (.table "people") := rfl
  obtain ⟨-, os, -, -, -, -, stayed, made, arrived, arranged, -⟩ :=
    insert_arranged Console.reachable_press (by decide) (by decide +kernel) selects inserted
  rw [arrived] at listed
  exact ⟨report, t, os, stayed, made, inserted, listed, arranged⟩

end Folio
