import Folio.Proofs.Replanning
/-!
# Requests that are issued twice

An insert that replaces or merges documents under keys of their own, and the merge of a patch of
constants into documents that are named or into a whole table, have nothing left to write when they
are issued once more: their plan lists the same documents, and each of them ends as it did or is
unchanged. Faults that last and locks that others hold make no difference to that.
-/

namespace Folio

open Run StoreState

variable {setup : Setup} {s t next : StoreState} {request : Request} {task : Task}
variable {tasks others : List Task} {selector : Selector Term} {mutation : Mutation Term}
variable {options : Options} {field : String} {os : List DocumentOutcome}

/-- A request that can be issued twice: an insert that replaces or merges documents that carry
different keys, or the merge of a patch of constants into documents that no predicate selects. There
is no NaN in it. -/
inductive Repeatable (field : String) (options : Options) : Selector Term → Mutation Term → Prop
  | insert {table : String} {payload : Term} {found : List Document}
      (policy : options.conflict.Overwrites) (settled : payload.IsSettled)
      (documents : Target.documents payload = .ok found)
      (numbers : ∀ d ∈ found, d.lacksNaN = true)
      (explicit : ∀ d ∈ found, Entries.has d field = true)
      (different : found.Pairwise fun d e =>
        (d.fieldOrNull field).same (e.fieldOrNull field) = false) :
      Repeatable field options (.table table) (.insert payload)
  | update {selector : Selector Term} {entries : List (Term × Term)}
      (direct : ∀ table predicate, selector ≠ .filter table predicate)
      (patch : Patch.IsReplayable entries) :
      Repeatable field options selector (.update (.mapping entries))

/-! ## Targets -/

/-- Targets with different keys that can be processed again. -/
structure ReplayableTargets (request : Request) (tasks : List Task) : Prop where
  keys : ∀ task ∈ tasks, task.key.isKey = true
  replayable : ∀ task ∈ tasks, task.IsReplayable request
  nodup : (tasks.map fun task => task.key.code).Nodup
  places : (tasks.map Task.index).Pairwise (· < ·)

namespace Document

variable {d : Document} {found : List Document}

theorem find?_of_isKey (h : (d.fieldOrNull field).isKey = true) :
    ∃ s, Entries.find? d field = some (.scalar s) ∧ d.fieldOrNull field = .scalar s := by
  unfold fieldOrNull at h ⊢
  cases hd : Entries.find? d field with
  | none =>
    rw [hd] at h
    cases h
  | some key =>
    rw [hd] at h
    cases key with
    | scalar s => exact ⟨s, rfl, rfl⟩
    | _ => cases h

/-- Keys of stable documents that are not the same have different codes. -/
theorem codes_nodup (stable : ∀ d ∈ found, d.IsStable)
    (keys : ∀ d ∈ found, (d.fieldOrNull field).isKey = true)
    (different : found.Pairwise fun d e =>
      (d.fieldOrNull field).same (e.fieldOrNull field) = false) :
    (found.map fun d => (d.fieldOrNull field).code).Nodup := by
  have address : ∀ d ∈ found, (d.fieldOrNull field).isAddress = true := by
    intro d hd
    obtain ⟨s, found, own⟩ := find?_of_isKey (keys d hd)
    have same := (stable d hd).find? found
    rw [← own] at same
    exact (Value.isAddress_of_same (keys d hd) same).1
  rw [List.Nodup, List.pairwise_map]
  refine different.imp_of_mem fun {d e} hd he apart same => ?_
  rw [(Value.code_eq_iff (address d hd) (address e he)).1 same] at apart
  cases apart

end Document

/-- The documents of a settled payload without NaN are stable. -/
theorem Target.isStable_of_mem_documents {payload : Term} {found : List Document}
    (settled : payload.IsSettled) (documents : documents payload = .ok found)
    (numbers : ∀ d ∈ found, d.lacksNaN = true) : ∀ d ∈ found, d.IsStable := by
  intro d hd
  obtain ⟨t, ht, valid⟩ := exists_of_forall₂ (documents_ends documents) hd
  exact ⟨document_settled valid (isSettled_of_mem_items settled ht), numbers d hd⟩

/-- Documents with different keys are targets that can be processed again. -/
theorem replayableTargets_explicit {found : List Document}
    (policy : request.options.conflict.Overwrites) (stable : ∀ d ∈ found, d.IsStable)
    (different : found.Pairwise fun d e =>
      (d.fieldOrNull request.keyField).same (e.fieldOrNull request.keyField) = false)
    (keys : ∀ task ∈ Target.explicitTasks request.keyField 0 found, task.key.isKey = true) :
    ReplayableTargets request (Target.explicitTasks request.keyField 0 found) := by
  have own := @Target.map_key_explicitTasks request.keyField 0 found
  refine ⟨keys, fun task ht => ?_, ?_, ?_⟩
  · obtain ⟨d, hd, -, work⟩ := Target.mem_explicitTasks ht
    unfold Task.IsReplayable
    rw [work]
    exact ⟨policy, stable d hd⟩
  · have codes := congrArg (List.map Value.code) own
    rw [List.map_map, List.map_map] at codes
    show ((Target.explicitTasks request.keyField 0 found).map (Value.code ∘ Task.key)).Nodup
    rw [codes]
    refine Document.codes_nodup stable (fun d hd => ?_) different
    have listed : d.fieldOrNull request.keyField ∈
        (Target.explicitTasks request.keyField 0 found).map Task.key := by
      rw [own]
      exact List.mem_map_of_mem hd
    obtain ⟨task, ht, key⟩ := List.mem_map.1 listed
    exact key ▸ keys task ht
  · rw [Target.explicitTasks, List.map_map]
    show ((found.zipIdx 0).map Prod.snd).Pairwise (· < ·)
    rw [List.zipIdx_map_snd]
    exact List.pairwise_lt_range'

/-- How a request is planned that can be issued twice: its policy is built in, the targets can
be processed again, and on every later state on which the rows have kept their places, unless the
request inserts, the same targets are planned. -/
structure Replanned (setup : Setup) (s : StoreState) (selector : Selector Term)
    (mutation : Mutation Term) (options : Options) (request : Request) (tasks : List Task) :
    Prop where
  conflict : ∃ policy, request.options.conflict = .builtin policy
  targets : ReplayableTargets request tasks
  inserts : ∀ payload found, mutation = .insert payload → Target.documents payload = .ok found →
    tasks = Target.explicitTasks request.keyField 0 found
  again : ∀ t : StoreState, t.Orderly → t.database.InOrder →
    t.database.tables = s.database.tables → t.hooks = s.hooks →
      ((∀ task ∈ tasks, task.isInsert = false) → t.database.places = s.database.places) →
        ∃ others q, (Writer.plan selector mutation options).exec setup t =
            (.ok (request, others), q) ∧
          List.Forall₂ (Respells request s.database t.database) tasks others

/-- The request is the same on every state with the same tables and hooks. -/
theorem Writer.plan_again {t q : StoreState} {others : List Task}
    (own : s.database.keyField? selector.tableName = some request.keyField)
    (request_eq : request = ⟨selector.tableName, request.keyField, options,
      Entries.find? s.hooks selector.tableName⟩)
    (orderly : t.Orderly) (tables : t.database.tables = s.database.tables)
    (hooks : t.hooks = s.hooks)
    (targets : (Target.tasks request selector mutation).exec setup t.tick = (.ok others, q)) :
    (Writer.plan selector mutation options).exec setup t = (.ok (request, others), q) := by
  have field : t.database.keyField? selector.tableName = some request.keyField := by
    rw [Database.keyField?, tables]
    exact own
  rw [Writer.exec_plan orderly field, hooks, ← request_eq, targets]
  rfl

theorem Repeatable.replanned (h : Repeatable field options selector mutation)
    (pages : 0 < setup.pageSize) (orderly : s.Orderly) (rows : s.database.InOrder)
    (hf : s.database.keyField? selector.tableName = some field) {p : StoreState}
    (planned : (Writer.plan selector mutation options).exec setup s = (.ok (request, tasks), p)) :
    Replanned setup s selector mutation options request tasks := by
  obtain ⟨own, request_eq, found⟩ := Writer.tasks_of_plan orderly planned
  obtain rfl : field = request.keyField := Option.some.inj (hf.symm.trans own)
  have name : selector.tableName = request.table := (congrArg Request.table request_eq).symm
  have chosen : request.options = options := congrArg Request.options request_eq
  cases h with
  | @insert table payload docs policy settled documents numbers explicit different =>
    have made := (Writer.insertPlan orderly planned).2.2
    obtain ⟨_, documents', planning⟩ := made.documents
    cases documents.symm.trans documents'
    -- Each document carries its key, so that no key is drawn and the tasks are the same again.
    obtain ⟨rfl, again⟩ := Target.insertTasks_explicit explicit planning
    have stable := Target.isStable_of_mem_documents settled documents numbers
    refine ⟨?_, replayableTargets_explicit (chosen ▸ policy) stable different
      fun task ht => (made.inserts task ht).1, ?_, fun t orderly _ tables hooks _ => ?_⟩
    · rw [chosen]
      rcases policy with policy | policy <;> exact ⟨_, policy⟩
    · rintro _ _ ⟨⟩ same
      cases documents.symm.trans same
      rfl
    refine ⟨_, t.tick, Writer.plan_again own request_eq orderly tables hooks ?_,
      List.forall₂_same.2 fun task _ => ⟨rfl, rfl, .refl _ _ _ _ _⟩⟩
    rw [Target.exec_tasks_insert, documents]
    exact again t.tick
  | @update selector entries direct patch =>
    have lists := Target.tasks_planned (s := s.tick) pages rows (name ▸ own) name
      (.update (.mapping entries)) tasks (congrArg Prod.fst found)
    obtain ⟨shape, ⟨keys, selected, rfl⟩, -⟩ := lists
    refine ⟨?_, ⟨shape.keys, fun task ht => ?_, ?_, ?_⟩,
      fun _ _ inserted => ?_, fun t orderly' rows' tables hooks places => ?_⟩
    · obtain ⟨_, builtin, -⟩ := exists_of_exec_ofExcept found
      exact ⟨.error, Target.conflict_of_checkConflict builtin⟩
    · unfold Task.IsReplayable
      rw [(Target.mem_tasksOn ht).2]
      exact ⟨entries, rfl, patch⟩
    · rw [Target.map_code_tasksOn]
      exact selected.nodup rows hf
    · rw [shape.places]
      exact List.pairwise_lt_range'
    · cases inserted
    · have kept := places fun task ht => by rw [Task.isInsert, (Target.mem_tasksOn ht).2]
      have field : t.database.keyField? request.table = some request.keyField := by
        rw [Database.keyField?, tables]
        exact name ▸ own
      -- A merge keeps every row in its place and can only change how its key is spelt.
      obtain ⟨others, q, again, respells⟩ := Target.tasks_again (s := s.tick) (t := t.tick) pages
        orderly.tick orderly'.tick rows rows' name (name ▸ own) field kept direct found
      exact ⟨others, q, Writer.plan_again own request_eq orderly' tables hooks again, respells⟩

/-! ## Runs -/

/-- A request that comes to a report was planned, and its targets came to the outcomes that the
report is made of. -/
theorem Writer.exists_of_execute {report : WriteReport}
    (h : (execute selector mutation options).exec setup s = (.ok report, t)) :
    ∃ request tasks p os u, (plan selector mutation options).exec setup s =
        (.ok (request, tasks), p) ∧
      (processTasks request tasks).exec setup p = (.ok os, u) ∧
        report = Report.ofOutcomes options.detail (inOrder os) ∧ Counted u t := by
  obtain ⟨reported, counted⟩ := @execute_outcomes setup s selector mutation options
  rw [h] at reported counted
  generalize planned : (plan selector mutation options).exec setup s = ended
  obtain ⟨f | ⟨request, tasks⟩, p⟩ := ended
  · unfold outcomes at reported
    rw [exec_bind, planned] at reported
    cases reported
  · rw [exec_outcomes planned] at reported counted
    generalize processed : (processTasks request tasks).exec setup p = ended at reported counted
    obtain ⟨f | os, u⟩ := ended
    · cases reported
    · exact ⟨request, tasks, p, os, u, rfl, processed, Except.ok.inj reported, counted⟩

theorem StoreState.Quiet.beside {table : String} (h : Quiet s t) (sound : s.locks.Sound) :
    Beside table s t where
  hooks := h.hooks
  faults := h.faults
  sound := h.locks ▸ sound
  held _ := by rw [h.locks]
  tables := by rw [h.database]
  others _ _ _ := by rw [h.database]

/-- The first run of a request that can be issued twice. -/
structure FirstRun (setup : Setup) (s : StoreState) (selector : Selector Term)
    (mutation : Mutation Term) (options : Options) (t : StoreState) (request : Request)
    (tasks : List Task) (os : List DocumentOutcome) : Prop where
  table : selector.tableName = request.table
  hook : request.hook = none
  faults : ∀ f ∈ s.faults, f.IsLasting
  ready : ∀ task ∈ tasks, Ready setup s request
  replanned : Replanned setup s selector mutation options request tasks
  beside : Beside request.table s t
  places : (∀ task ∈ tasks, task.isInsert = false) → t.database.places = s.database.places
  passed : List.Forall₂ (Passed setup s request t.database) tasks os

theorem Writer.execute_first (h : Repeatable field options selector mutation)
    (pages : 0 < setup.pageSize) (faults : ∀ f ∈ s.faults, f.IsLasting) (sound : s.locks.Sound)
    (rows : s.database.InOrder)
    (hf : s.database.keyField? selector.tableName = some field)
    (hook : Entries.find? s.hooks selector.tableName = none)
    (stable : s.database.IsStable selector.tableName) {report : WriteReport}
    (came : (execute selector mutation options).exec setup s = (.ok report, t)) :
    ∃ request tasks os, report = Report.ofOutcomes options.detail os ∧
      FirstRun setup s selector mutation options t request tasks os := by
  have orderly : s.Orderly := ⟨fun f hf => (faults f hf).slot, sound⟩
  obtain ⟨request, tasks, p, os, u, planned, processed, rfl, counted⟩ := exists_of_execute came
  have browsed := plan_browses browsing_quiet selector mutation options setup s
  rw [planned] at browsed
  obtain ⟨own, request_eq, -⟩ := tasks_of_plan orderly planned
  have name : selector.tableName = request.table := (congrArg Request.table request_eq).symm
  have hookless : request.hook = none := (congrArg Request.hook request_eq).trans hook
  have replanned := h.replanned pages orderly rows hf planned
  have beside : Beside request.table s p := browsed.beside sound
  have waited := timeout_of_processed ⟨fun f hf => (faults f (browsed.faults ▸ hf)).slot,
    beside.sound⟩ processed
  obtain ⟨policy, builtin⟩ := replanned.conflict
  have ready : ∀ task ∈ tasks, Ready setup s request := fun task ht =>
    ⟨waited task ht, faults, sound, fun f hf => (nomatch hookless.symm.trans hf),
      fun f hf => (nomatch builtin.symm.trans hf), fun p hp => (nomatch builtin.symm.trans hp),
      ConflictPolicy.isTame_of_builtin builtin⟩
  have passed := processTasks_passed ready hookless replanned.targets.keys
    replanned.targets.replayable replanned.targets.nodup replanned.targets.places (name ▸ stable)
    beside browsed.database
  rw [Ensures, processed] at passed
  obtain ⟨beside, places, _, ⟨⟩, passed⟩ := passed
  rw [← counted.database] at places passed
  exact ⟨request, tasks, inOrder os, rfl, name, hookless, faults, ready, replanned,
    beside.trans (counted.beside beside.sound), places, passed⟩

/-- The second run of a request comes to a report as well, and leaves the database as it is. -/
theorem Writer.execute_second
    (first : FirstRun setup s selector mutation options t request tasks os)
    (rows : t.database.InOrder) (quiet : Quiet t next) :
    ∃ os' u, (execute selector mutation options).exec setup next =
        (.ok (Report.ofOutcomes options.detail os'), u) ∧
      List.Forall₂ Outcome.Repeats os os' ∧ u.database = t.database := by
  have beside : Beside request.table s next := first.beside.trans (quiet.beside first.beside.sound)
  have places := first.places
  have passed := first.passed
  rw [← quiet.database] at rows places passed ⊢
  obtain ⟨others, q, planned, respells⟩ := first.replanned.again next
    ⟨fun f hf => (first.faults f (beside.faults ▸ hf)).slot, beside.sound⟩ rows
    beside.tables beside.hooks places
  have browsed := plan_browses browsing_quiet selector mutation options setup next
  rw [planned] at browsed
  have again := processTasks_again first.ready first.replanned.targets.keys
    first.replanned.targets.replayable first.replanned.targets.places passed respells
    (beside.trans (browsed.beside beside.sound)) browsed.database
  unfold Ensures at again
  generalize processed : (processTasks request others).exec setup q = ended at again
  obtain ⟨_, u⟩ := ended
  obtain ⟨-, same, os', rfl, repeats⟩ := again
  obtain ⟨v, came, counted⟩ := execute_of_processed planned processed
  exact ⟨inOrder os', v, came, repeats, counted.database.trans same⟩

/-! ## Inserts -/

/-- An insert keeps the key that its document carries. -/
theorem Commit.checkKey_overwriting {policy : ConflictPolicy} {existing : Option Document}
    {document : Document} (stable : ∀ d ∈ existing, d.IsStable) (incoming : document.IsStable)
    (key : (document.fieldOrNull field).isKey = true) :
    checkKey field (document.fieldOrNull field).toTerm
      (some (overwriting policy existing document)) = .ok () := by
  obtain ⟨s, found, own⟩ := Document.find?_of_isKey key
  have kept : Entries.find? (overwriting policy existing document) field = some (.scalar s) := by
    unfold overwriting
    split
    · cases existing with
      | none => exact found
      | some old => exact Document.find?_merge (stable old rfl).settled incoming.settled found
    · exact found
  unfold checkKey
  dsimp only
  rw [own, Document.fieldOrNull, kept]
  exact if_pos (incoming.find? found)

theorem Commit.ended_clear (task : Task) (existing : Option Document) (v : Verdict) :
    ended none task existing (.ok v) = .ok v := by
  obtain ⟨o, _ | writes⟩ := v <;> rfl

theorem Commit.kind_verdict (task : Task) (existing final : Option Document) :
    (verdict task existing final).outcome.kind ≠ .error := by
  cases final with
  | none => cases existing <;> exact fun h => nomatch h
  | some d =>
    unfold verdict
    dsimp only
    split
    · exact fun h => nomatch h
    · cases existing <;> exact fun h => nomatch h

theorem Passed.kind_ne_skipped {o : DocumentOutcome}
    (h : Passed setup s request t.database task o) (insert : task.isInsert = true) :
    o.kind ≠ .skipped := by
  obtain ⟨-, v, -, repeats, rfl, -⟩ := h
  rintro skipped
  cases repeats with
  | idle _ skips => exact Bool.false_ne_true ((skips skipped).symm.trans insert)
  | wrote kind =>
    dsimp only at skipped
    rw [skipped] at kind
    cases kind

/-- An insert with nothing in its way ends in no error. -/
theorem Passed.kind_ne_error {o : DocumentOutcome} {document : Document} {generated : Bool}
    (h : Passed setup s request t.database task o) (hook : request.hook = none)
    (clear : s.obstacles setup request.table task.key = ⟨none, none, none⟩)
    (replayable : task.IsReplayable request) (work : task.work = .insert document generated)
    (key : task.key = document.fieldOrNull request.keyField) (valid : task.key.isKey = true)
    (stable : s.database.IsStable request.table) : o.kind ≠ .error := by
  obtain ⟨-, v, course, -, rfl, -⟩ := h
  unfold Task.IsReplayable at replayable
  rw [work] at replayable
  obtain ⟨policy, incoming⟩ := replayable
  have keeps : Commit.checkKey request.keyField task.key.toTerm (some (Commit.overwriting
      request.options.conflict (s.database.find? request.table task.key.code) document)) =
        .ok () := by
    rw [key] at valid ⊢
    exact Commit.checkKey_overwriting (fun d hd => stable _ d hd) incoming valid
  rw [clear, Commit.pureCourse_of_keeping hook rfl
    (fun _ => Commit.proposal_insert work policy) keeps] at course
  obtain rfl := Except.ok.inj ((Commit.ended_clear _ _ _).symm.trans course)
  exact Commit.kind_verdict _ _ _

/-- The reports on an insert that is issued twice: no document is skipped, and where nothing is in
the way there are no errors. -/
theorem FirstRun.inserted {payload : Term} {found : List Document}
    (first : FirstRun setup s selector (.insert payload) options t request tasks os)
    (documents : Target.documents payload = .ok found)
    (stable : s.database.IsStable request.table) :
    (Report.ofOutcomes options.detail os).total = found.length ∧
      (Report.ofOutcomes options.detail os).skipped = 0 ∧
        ((∀ key, s.obstacles setup request.table key = ⟨none, none, none⟩) →
          (Report.ofOutcomes options.detail os).errors = 0) := by
  have planned := first.replanned.inserts payload found rfl documents
  have work : ∀ task ∈ tasks, ∃ d ∈ found,
      task.key = d.fieldOrNull request.keyField ∧ task.work = .insert d false := by
    rw [planned]
    exact fun task ht => Target.mem_explicitTasks ht
  have none_of : ∀ kind : OutcomeKind, (∀ task ∈ tasks, ∀ o,
      Passed setup s request t.database task o → o.kind ≠ kind) →
        (Report.ofOutcomes options.detail os).tally kind = 0 := by
    intro kind never
    rw [Report.tally_ofOutcomes, List.countP_eq_zero]
    intro o ho
    obtain ⟨task, ht, passed⟩ := exists_of_forall₂ first.passed ho
    simpa using never task ht o passed
  refine ⟨?_, none_of .skipped fun task ht o passed => ?_, fun clear =>
    none_of .error fun task ht o passed => ?_⟩
  · rw [Report.total_ofOutcomes, ← first.passed.length_eq, planned, Target.explicitTasks,
      List.length_map, List.length_zipIdx]
  · obtain ⟨d, -, -, inserts⟩ := work task ht
    exact passed.kind_ne_skipped (by rw [Task.isInsert, inserts])
  · obtain ⟨d, -, key, inserts⟩ := work task ht
    exact passed.kind_ne_error first.hook (clear task.key)
      (first.replanned.targets.replayable task ht) inserts key
      (first.replanned.targets.keys task ht) stable

/-! ## Entries -/

/-- The commands that are requests of the writer, with the terms that they submit. -/
inductive Command.Submits : Command → Term → Term → Term → Term → Term → Prop
  | insert (table payload conflict durability returnChanges : Term) :
      Submits (.insert table payload conflict durability returnChanges) (Writer.target table)
        (.mutation (.insert payload)) conflict durability returnChanges
  | update (selected patch durability returnChanges : Term) :
      Submits (.update selected patch durability returnChanges) (Writer.target selected)
        (.mutation (.update patch)) (.text "error") durability returnChanges
  | mutate (selector mutation conflict durability returnChanges : Term) :
      Submits (.mutate selector mutation conflict durability returnChanges) selector mutation
        conflict durability returnChanges

variable {command : Command} {conflict durability returnChanges : Term}

theorem Command.Submits.run {selected asked : Term}
    (h : command.Submits selected asked conflict durability returnChanges) :
    command.run = do
      return .report (← Writer.submit selected asked conflict durability returnChanges) := by
  cases h with
  | insert table payload => rfl
  | update selected patch => rfl
  | mutate selector mutation => exact run_mutate ..

theorem Command.Submits.isManaged {selected asked : Term}
    (h : command.Submits selected asked conflict durability returnChanges)
    (settled : asked.IsSettled) : command.IsManaged := by
  cases h with
  | insert => exact settled
  | update => exact settled
  | mutate => exact settled

theorem Command.Submits.exec_run
    (h : command.Submits (.selector selector) (.mutation mutation) conflict durability
      returnChanges)
    (given : Writer.optionsOf conflict durability returnChanges = .ok options) :
    command.run.exec setup s =
      (((Writer.execute selector mutation options).exec setup s).1.map .report,
        ((Writer.execute selector mutation options).exec setup s).2) := by
  have submitted : Writer.submit (.selector selector) (.mutation mutation) conflict durability
      returnChanges = Writer.execute selector mutation options := by
    unfold Writer.submit
    rw [given]
    rfl
  rw [h.run, submitted, bind_pure_comp, exec_map]

theorem Repeatable.settled (h : Repeatable field options selector mutation) :
    (Term.mutation mutation).IsSettled := by
  cases h with
  | insert _ settled => exact settled
  | update _ patch => exact patch.settled

theorem StoreState.obstacles_of_calm {table : String} (faults : s.faults = [])
    (free : ∀ code, s.locks.isHeld (table, code) = false) (key : Value) :
    s.obstacles setup table key = ⟨none, none, none⟩ := by
  have strike : ∀ point k n, s.strike? point k n = none := fun point k n =>
    strike?_eq_none fun f hf => nomatch faults ▸ hf
  unfold obstacles
  rw [free, strike, strike]
  rfl

/-- Issued twice, a request changes nothing the second time. In every reachable store, take a table
without NaN and without a hook, and a request that replaces or merges documents that carry different
keys, or that merges a patch of constants into documents that are named or into the whole table. If
it comes to a report, it comes to a report once more: nothing was written, as many documents were
skipped as before, the same errors occurred, and every row is as the first run left it, in its
place. The documents of an insert are unchanged or end in the errors from before, and all of them
are unchanged if no fault and no lock is in the way. -/
theorem Console.request_repeats {c c' : Console} (hc : c.Reachable) (pages : 0 < setup.pageSize)
    (settled : setup.IsSettled) (faults : ∀ f ∈ c.state.faults, f.IsLasting)
    (submits : command.Submits (.selector selector) (.mutation mutation) conflict durability
      returnChanges)
    (given : Writer.optionsOf conflict durability returnChanges = .ok options)
    (hf : c.state.database.keyField? selector.tableName = some field)
    (hook : Entries.find? c.state.hooks selector.tableName = none)
    (numbers : ∀ r ∈ c.state.database.rows, r.table = selector.tableName → r.body.lacksNaN = true)
    (repeatable : Repeatable field options selector mutation) {first : WriteReport}
    (answered : c.step setup (.command command) = (.ok (.report first), c')) :
    ∃ second c'', c'.step setup (.command command) = (.ok (.report second), c'') ∧
      first.Repeats second ∧ c''.state.database = c'.state.database ∧
      ∀ payload found, mutation = .insert payload → Target.documents payload = .ok found →
        second.skipped = 0 ∧ second.unchanged + second.errors = found.length ∧
          (c.state.faults = [] →
            (∀ code, c.state.locks.isHeld (selector.tableName, code) = false) →
              second.unchanged = found.length) := by
  have sound := hc.sound
  have reached : c'.Reachable := by
    have managed : (Entry.command command).IsManaged := submits.isManaged repeatable.settled
    have next := hc.step pages settled managed
    rw [answered] at next
    exact next
  have stable : c.state.database.IsStable selector.tableName := by
    intro code d hd
    obtain ⟨r, hr, hat, rfl⟩ := Database.exists_of_find? hd
    exact ⟨sound.settled r hr, numbers r hr ((Database.isAt_iff r _ _).1 hat).1⟩
  rw [step_command, submits.exec_run given] at answered
  generalize came : (Writer.execute selector mutation options).exec setup c.state.fresh = ended
    at answered
  obtain ⟨f | report, t⟩ := ended
  · cases answered
  · cases answered
    obtain ⟨request, tasks, os, rfl, run⟩ := Writer.execute_first (s := c.state.fresh) repeatable
      pages faults sound.locks sound.rows hf hook stable came
    have quiet : Quiet t t.fresh := ⟨rfl, rfl, rfl, rfl⟩
    obtain ⟨os', u, again, repeats, same⟩ := Writer.execute_second run reached.sound.rows quiet
    have reports := @Report.repeats_ofOutcomes _ _ options.detail _ _ repeats
    refine ⟨_, { c with state := u }, ?_, reports, same, ?_⟩
    · rw [step_command, submits.exec_run given, again]
      rfl
    · rintro payload found rfl documents
      obtain ⟨total, skipped, errors⟩ := run.inserted documents (run.table ▸ stable)
      have unchanged := reports.unchanged
      have failed := reports.errors
      unfold Report.total at total
      refine ⟨reports.skipped.trans skipped, by omega, fun calm free => ?_⟩
      have none := errors (run.table ▸ obstacles_of_calm (s := c.state.fresh) calm free)
      omega

/-- The small store without its hook. -/
def Console.unhooked : Console := (people.step .echo (.command (.setHook "people" .null))).2

theorem Console.reachable_unhooked : unhooked.Reachable :=
  reachable_people.step (by decide) Setup.isSettled_echo trivial

/-- A document that exists and a new one. -/
def pair : Term := .list [person (.int 2) "una", person (.text "kim") "kim"]

/-- A patch that takes a field away and writes another one as a whole. -/
def retagging : List (Term × Term) :=
  [(.text "name", .mark .remove),
    (.text "tags", .mapping [(.text "old", .mark .remove), (.text "new", .int 1)])]

/-- The number of documents that a request to a console replaces. -/
def Console.replacements (c : Console) (selector : Selector Term) (mutation : Mutation Term)
    (options : Options) : Option Nat :=
  match (Writer.plan selector mutation options).exec .echo c.state.fresh with
  | (.error _, _) => none
  | (.ok (request, tasks), p) =>
    match (Writer.processTasks request tasks).exec .echo p with
    | (.error _, _) => none
    | (.ok found, _) => some (found.countP fun o => o.kind = .replaced)

theorem Command.Submits.answers {c : Console} {count : Nat}
    (h : command.Submits (.selector selector) (.mutation mutation) conflict durability
      returnChanges)
    (given : Writer.optionsOf conflict durability returnChanges = .ok options)
    (replaced : c.replacements selector mutation options = some count) :
    ∃ report next, c.step .echo (.command command) = (.ok (.report report), next) ∧
      report.replaced = count := by
  unfold Console.replacements at replaced
  generalize planned : (Writer.plan _ _ _).exec .echo c.state.fresh = ended at replaced
  obtain ⟨f | ⟨request, tasks⟩, p⟩ := ended
  · cases replaced
  · dsimp only at replaced
    generalize processed : (Writer.processTasks request tasks).exec .echo p = ended at replaced
    obtain ⟨f | found, last⟩ := ended
    · cases replaced
    · obtain ⟨t, came, -⟩ := Writer.execute_of_processed planned processed
      refine ⟨_, { c with state := t }, ?_,
        (Writer.tally_inOrder options.detail found .replaced).trans (Option.some.inj replaced)⟩
      rw [Console.step_command, h.exec_run given, came]
      rfl

/-- Two documents are merged into a small store, and both of its documents are patched, twice. -/
theorem Console.request_repeats_unhooked :
    (∃ first second c' c'',
      unhooked.step .echo (.insert pair (.text "update")) = (.ok (.report first), c') ∧
      first.replaced = 1 ∧
      c'.step .echo (.insert pair (.text "update")) = (.ok (.report second), c'') ∧
      second.unchanged = 2 ∧ c''.state.database = c'.state.database) ∧
    ∃ first second c' c'',
      unhooked.step .echo (.command (.update (.text "people") (.mapping retagging) (.text "hard")
        (.bool true))) = (.ok (.report first), c') ∧
      first.replaced = 2 ∧
      c'.step .echo (.command (.update (.text "people") (.mapping retagging) (.text "hard")
        (.bool true))) = (.ok (.report second), c'') ∧
      first.Repeats second ∧ c''.state.database = c'.state.database := by
  have calm : unhooked.state.faults = [] :=
    List.length_eq_zero_iff.1 (by decide +kernel : unhooked.state.faults.length = 0)
  have faults : ∀ f ∈ unhooked.state.faults, f.IsLasting := by
    rw [calm]
    exact List.forall_mem_nil _
  have free : ∀ code, unhooked.state.locks.isHeld ("people", code) = false := by
    have none : unhooked.state.locks.held = [] := by decide +kernel
    intro code
    unfold LockTable.isHeld
    rw [none]
    split <;> rfl
  have field : unhooked.state.database.keyField? "people" = some "id" := by decide +kernel
  have hook : Entries.find? unhooked.state.hooks "people" = none := by decide +kernel
  have numbers : ∀ r ∈ unhooked.state.database.rows, r.table = "people" →
      r.body.lacksNaN = true := by decide +kernel
  constructor
  · have submits := Command.Submits.insert (.text "people") pair (.text "update") (.text "hard")
      (.bool true)
    have repeatable : Repeatable "id" ⟨.builtin .update, .hard, .bool true⟩ (.table "people")
        (.insert pair) := by
      refine .insert (.inr rfl) ?_ (show Target.documents pair = .ok _ from rfl) (by decide)
        (by decide) (by decide)
      simp [pair, person, Term.IsSettled, Term.SettledItems, Term.SettledEntries, Term.labels,
        Term.label?, Term.text, Term.int]
    obtain ⟨first, c', answered, replaced⟩ := submits.answers (c := unhooked) rfl
      (by decide +kernel : unhooked.replacements (.table "people") (.insert pair)
        ⟨.builtin .update, .hard, .bool true⟩ = some 1)
    obtain ⟨second, c'', again, -, same, inserts⟩ := request_repeats reachable_unhooked (by decide)
      Setup.isSettled_echo faults submits rfl field hook numbers repeatable answered
    exact ⟨first, second, c', c'', answered, replaced, again,
      (inserts pair _ rfl rfl).2.2 calm free, same⟩
  · have submits := Command.Submits.update (.text "people") (.mapping retagging) (.text "hard")
      (.bool true)
    have repeatable : Repeatable "id" ⟨.builtin .error, .hard, .bool true⟩ (.table "people")
        (.update (.mapping retagging)) := by
      refine .update (fun _ _ => by simp) ⟨rfl, ?_, by decide⟩
      simp [retagging, Term.IsSettled, Term.SettledEntries, Term.labels, Term.label?, Term.text,
        Term.int]
    obtain ⟨first, c', answered, replaced⟩ := submits.answers (c := unhooked) rfl
      (by decide +kernel : unhooked.replacements (.table "people") (.update (.mapping retagging))
        ⟨.builtin .error, .hard, .bool true⟩ = some 2)
    obtain ⟨second, c'', again, repeats, same, -⟩ := request_repeats reachable_unhooked (by decide)
      Setup.isSettled_echo faults submits rfl field hook numbers repeatable answered
    exact ⟨first, second, c', c'', answered, replaced, again, repeats, same⟩

end Folio
