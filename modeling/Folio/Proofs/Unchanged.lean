import Folio.Proofs.Idempotent
import Folio.Proofs.InRange
import Folio.Proofs.Matching
/-!
# Updates and filters by one pattern

An update by a pattern leaves alone what a filter by the same pattern selects. For each target that
is so because a partial match and a merge agree; a document that has all of the pattern keeps its
key, and one that is missing is skipped. So where nothing is in the way of a request, the report
counts as unchanged those of its targets that the filter finds.
-/

namespace Folio

open Run StoreState

variable {entries : List (Term × Term)} {pattern old d : Document}

/-! ## Patterns -/

namespace Term

mutual

/-- What stands for a document value may stand in a patch. -/
theorem validatePatch_validate : (t : Term) → ∀ path v, t.validate path = .ok v →
    t.validatePatch path = .ok ()
  | .scalar _, _, _, _ => rfl
  | .list items, path, v, h => by
    obtain ⟨values, hr, rfl⟩ := exists_of_map_ok h
    exact validatePatchItems_validateItems items path 0 values hr
  | .tuple items, path, v, h => by
    obtain ⟨values, hr, rfl⟩ := exists_of_map_ok h
    exact validatePatchItems_validateItems items path 0 values hr
  | .mapping entries, path, v, h => by
    obtain ⟨fields, hr, rfl⟩ := exists_of_map_ok h
    exact validatePatchEntries_validateEntries entries path fields hr
  | .mark _, _, _, h => nomatch h
  | .literal _, _, _, h => nomatch h
  | .expression .., _, _, h => nomatch h
  | .record .., _, _, h => nomatch h
  | .function _, _, _, h => nomatch h
  | .policy .., _, _, h => nomatch h
  | .resolver .., _, _, h => nomatch h
  | .ownPolicy .., _, _, h => nomatch h
  | .selector _, _, _, h => nomatch h
  | .mutation _, _, _, h => nomatch h
  | .foreign _, _, _, h => nomatch h

theorem validatePatchItems_validateItems : (items : List Term) → ∀ path index values,
    validateItems path index items = .ok values → validatePatchItems path index items = .ok ()
  | [], _, _, _, _ => rfl
  | item :: rest, path, index, values, h => by
    obtain ⟨r, hr, h⟩ := exists_of_bind_ok h
    obtain ⟨rs, hs, -⟩ := exists_of_bind_ok h
    rw [validatePatchItems, validatePatch_validate item _ r hr]
    exact validatePatchItems_validateItems rest _ _ rs hs

theorem validatePatchEntries_validateEntries : (entries : List (Term × Term)) → ∀ path fields,
    validateEntries path entries = .ok fields → validatePatchEntries path entries = .ok ()
  | [], _, _, _ => rfl
  | (.scalar (.text label), value) :: rest, path, fields, h => by
    obtain ⟨r, hr, h⟩ := exists_of_bind_ok h
    obtain ⟨rs, hs, -⟩ := exists_of_bind_ok h
    rw [validatePatchEntries, validatePatch_validate value _ r hr]
    exact validatePatchEntries_validateEntries rest path rs hs

end

mutual

/-- A term is a constant if it stands for a value without NaN. -/
theorem isConstant_validate : (t : Term) → ∀ path v, t.validate path = .ok v →
    t.isConstant = v.lacksNaN
  | .scalar _, _, _, rfl => rfl
  | .list items, path, v, h => by
    obtain ⟨values, hr, rfl⟩ := exists_of_map_ok h
    exact areConstant_validateItems items path 0 values hr
  | .tuple items, path, v, h => by
    obtain ⟨values, hr, rfl⟩ := exists_of_map_ok h
    exact areConstant_validateItems items path 0 values hr
  | .mapping entries, path, v, h => by
    obtain ⟨fields, hr, rfl⟩ := exists_of_map_ok h
    exact haveConstants_validateEntries entries path fields hr
  | .mark _, _, _, h => nomatch h
  | .literal _, _, _, h => nomatch h
  | .expression .., _, _, h => nomatch h
  | .record .., _, _, h => nomatch h
  | .function _, _, _, h => nomatch h
  | .policy .., _, _, h => nomatch h
  | .resolver .., _, _, h => nomatch h
  | .ownPolicy .., _, _, h => nomatch h
  | .selector _, _, _, h => nomatch h
  | .mutation _, _, _, h => nomatch h
  | .foreign _, _, _, h => nomatch h

theorem areConstant_validateItems : (items : List Term) → ∀ path index values,
    validateItems path index items = .ok values →
      areConstant items = Value.itemsLackNaN values
  | [], _, _, _, rfl => rfl
  | item :: rest, path, index, values, h => by
    obtain ⟨r, hr, h⟩ := exists_of_bind_ok h
    obtain ⟨rs, hs, h⟩ := exists_of_bind_ok h
    cases h
    rw [areConstant, isConstant_validate item _ r hr, areConstant_validateItems rest _ _ rs hs]
    rfl

theorem haveConstants_validateEntries : (entries : List (Term × Term)) → ∀ path fields,
    validateEntries path entries = .ok fields →
      haveConstants entries = Value.fieldsLackNaN fields
  | [], _, _, rfl => rfl
  | (.scalar (.text label), value) :: rest, path, fields, h => by
    obtain ⟨r, hr, h⟩ := exists_of_bind_ok h
    obtain ⟨rs, hs, h⟩ := exists_of_bind_ok h
    cases h
    rw [haveConstants, isConstant_validate value _ r hr,
      haveConstants_validateEntries rest path rs hs]
    rfl

end

end Term

namespace Patch

/-- A mapping of document values without NaN, tuples included, and the document that it stands
for. -/
structure IsPattern (entries : List (Term × Term)) (pattern : Document) : Prop where
  settled : (Term.mapping entries).IsSettled
  valid : (Term.mapping entries).validateDocument "" = .ok pattern
  lacksNaN : pattern.lacksNaN = true

variable (h : IsPattern entries pattern)

include h

theorem IsPattern.stable : pattern.IsStable :=
  ⟨Term.isSettled_validateDocument h.settled h.valid, h.lacksNaN⟩

theorem IsPattern.evaluate (existing : Term) :
    Patch.evaluate existing (.mapping entries) = .ok pattern.toEntries := by
  show lift (Term.evaluatePatchEntries existing entries) = _
  rw [Term.evaluatePatchEntries_validateEntries existing entries "" pattern h.valid]
  rfl

theorem IsPattern.replayable : IsReplayable entries where
  valid := Term.validatePatchEntries_validateEntries entries "" pattern h.valid
  settled := h.settled
  constants := (Term.haveConstants_validateEntries entries "" pattern h.valid).trans h.lacksNaN

theorem IsPattern.selects (d : Document) :
    Predicate.selects (.mapping entries) d.toTerm =
      .ok (Predicate.matchValue pattern.toTerm d.toTerm) :=
  congrArg Except.ok (Term.matchEntries_validateEntries entries "" pattern h.valid d.toEntries)

theorem IsPattern.isMatch (d : Document) :
    Predicate.isMatch (.mapping entries) d = Predicate.matchValue pattern.toTerm d.toTerm :=
  Term.matchEntries_validateEntries entries "" pattern h.valid d.toEntries

/-- As a patch, the pattern is merged as the document that it stands for. -/
theorem IsPattern.exec_applyPatch (d : Document) (setup : Setup) (s : StoreState) :
    (Commit.applyPatch d.toTerm (.mapping entries)).exec setup s =
      (.ok (d.merge pattern).toTerm, s) := by
  have patched : Commit.patched (setup.answer s.calls) d (.mapping entries) =
      .ok (d.merge pattern).toTerm := by
    show (Patch.evaluate d.toTerm (.mapping entries)).map _ = _
    rw [h.evaluate]
    exact congrArg (fun merged => Except.ok (Term.mapping merged))
      (Document.merge_toEntries d pattern)
  rw [Commit.exec_applyPatch, patched]
  exact congrArg (Prod.mk _) s.log_nil

end Patch

/-! ## Targets -/

section Targets

variable {setup : Setup} {s t : StoreState} {request : Request} {task : Task} {v : Verdict}
variable {tasks : List Task} {os : List DocumentOutcome} {table field : String} {key : Value}

/-- What is the same as a document that is found under a key has the key. -/
theorem Commit.checkKey_of_same (hk : key.isKey = true) (merged : d.IsSettled)
    (settled : old.IsSettled) (same : d.same old = true) (keyed : old.IsKeyed field key.code) :
    checkKey field key.toTerm (some d) = .ok () := by
  obtain ⟨own, found, address, code⟩ := keyed
  have each := (Value.same_object_iff merged.1 settled.1).1 same field
  rw [found] at each
  cases hf : Entries.find? d field with
  | none =>
    rw [hf] at each
    cases each
  | some after =>
    rw [hf] at each
    cases each with
    | some spelt =>
      -- The merge may spell the key in another way, which has the same code.
      obtain ⟨kept, same_code⟩ := Value.isAddress_of_same (Value.isKey_of_isAddress address) spelt
      have named := same_code.trans code
      have agrees : after.same key = true :=
        (Value.code_eq_iff kept (Value.isAddress_of_code kept hk named)).1 named
      unfold checkKey
      dsimp only
      rw [Document.fieldOrNull, hf]
      exact if_pos agrees

/-- Merged into a document that nothing stands in the way of, a pattern leaves it unchanged if it
selects it. -/
theorem Commit.unchanged_iff (h : Patch.IsPattern entries pattern) (hook : request.hook = none)
    (work : task.work = .update (.mapping entries)) (hk : task.key.isKey = true)
    (stable : old.IsStable) (keyed : old.IsKeyed request.keyField task.key.code)
    (course : pureCourse setup request ⟨none, none, none⟩ task (some old) = .ok v) :
    v.outcome.kind = .unchanged ↔ Predicate.isMatch (.mapping entries) old = true := by
  have listed : Term.listedEntries entries = pattern.toEntries :=
    Except.ok.inj ((h.replayable.evaluate .null).symm.trans (h.evaluate .null))
  have proposed : ∀ answer, proposal answer request task (some old) =
      keeping request task (old.merge pattern) := by
    intro answer
    rw [proposal_update work h.replayable, listed, Document.merge_toEntries]
    show documentOf .patchedInvalid (old.merge pattern).toTerm >>= keeping request task = _
    rw [documentOf_toTerm]
    rfl
  rw [h.isMatch, Document.match_iff stable h.stable.settled]
  cases keeps : checkKey request.keyField task.key.toTerm (some (old.merge pattern)) with
  | ok _ =>
    rw [pureCourse_of_keeping hook rfl proposed keeps, ended_clear] at course
    cases course
    rw [verdict, isUnchanged]
    split
    · rename_i same
      exact ⟨fun _ => same, fun _ => rfl⟩
    · rename_i changed
      exact iff_of_false OutcomeKind.noConfusion changed
  | error f =>
    rw [pureCourse_of_failure rfl (isDocumentWrite_of_checkKey keeps) fun _ => by
      rw [proposed, keeping_of_error keeps]] at course
    cases course
    refine iff_of_false OutcomeKind.noConfusion fun same => ?_
    -- A merge that leaves the document the same would have left its key.
    have kept := checkKey_of_same hk (stable.settled.merge h.stable.settled) stable.settled same
      keyed
    cases keeps.symm.trans kept

/-- Where there is no document, there is nothing that could be unchanged. -/
theorem Commit.not_unchanged_of_absent (hook : request.hook = none) {patch : Term}
    (work : task.work = .update patch)
    (course : pureCourse setup request ⟨none, none, none⟩ task none = .ok v) :
    v.outcome.kind ≠ .unchanged := by
  have skipped : pureCourse setup request ⟨none, none, none⟩ task none =
      .ok ⟨task.outcome .skipped none none, none⟩ := by
    unfold pureCourse Commit.course
    rw [judge_of_proposal hook, proposal_of_absent work]
    rfl
  cases skipped.symm.trans course
  exact fun kind => nomatch kind

/-- A target of an update by a pattern that has nothing in its way is unchanged if its document is
one that the pattern selects. -/
theorem MarkedTurn.unchanged_iff {F : String → Bool} {existing next : Option Document}
    {o : DocumentOutcome} (turn : MarkedTurn F setup request task existing o next)
    (unmarked : F task.key.code = false) (h : Patch.IsPattern entries pattern)
    (hook : request.hook = none) (work : task.work = .update (.mapping entries))
    (hk : task.key.isKey = true) (stable : ∀ d ∈ existing, d.IsStable)
    (keyed : ∀ d ∈ existing, d.IsKeyed request.keyField task.key.code) :
    o.kind = .unchanged ↔ existing.any (Predicate.isMatch (.mapping entries)) = true := by
  obtain ⟨_, v, clear, course, rfl, -⟩ := turn
  rw [clear unmarked] at course
  cases existing with
  | none =>
    exact ⟨fun kind => absurd kind (Commit.not_unchanged_of_absent hook work course),
      fun selected => nomatch selected⟩
  | some old => exact Commit.unchanged_iff h hook work hk (stable old rfl) (keyed old rfl) course

/-- Targets with different keys whose locks are free take their turns at the documents that stood
there before. -/
theorem Writer.turns_of_processed {p u : StoreState} (faults : p.faults = [])
    (sound : p.locks.Sound) (timeout : Timeout.check setup.config.lockTimeout = .ok ())
    (keys : ∀ task ∈ tasks, task.key.isKey = true)
    (nodup : (tasks.map fun task => task.key.code).Nodup)
    (pure : ∀ task ∈ tasks, Commit.AsksPure setup request task)
    (processed : (processTasks request tasks).exec setup p = (.ok os, u)) :
    List.Forall₂ (fun task o => ∃ next, MarkedTurn
      (fun code => p.locks.isHeld (request.table, code)) setup request task
        (p.database.find? request.table task.key.code) o next) (inTurn tasks) os := by
  have confined : Confined (fun code => p.locks.isHeld (request.table, code)) request.table
      p.locks [] :=
    ⟨sound, fun _ free => free, List.forall_mem_nil _, List.forall_mem_nil _⟩
  have visited := (processTasks_visited (marked_steps confined (fun _ _ => timeout) keys pure)
    ⟨sound, fun _ => rfl, faults⟩).2
  rw [processed] at visited
  have visits := Visits.at_start request.table p.database visited
    (((inTurn_perm tasks).map _).nodup_iff.2 nodup)
    (fun _ _ _ _ visit _ ne => visit.1.others fun _ => ne) fun _ _ => rfl
  rw [List.forall₂_map_right_iff] at visits
  refine visits.imp ?_
  rintro task o ⟨s, t, ⟨visit, -⟩, start⟩
  exact ⟨_, start ▸ visit.isTurn.turn⟩

end Targets

/-! ## Requests -/

/-- Nothing is in the way of an update: the table exists and has no hook, the database does not
fail, the locks on the targets can be had, and there is no NaN in their documents. -/
structure Writer.IsClear (setup : Setup) (s : StoreState) (selector : Selector Term)
    (options : Options) (field : String) : Prop where
  pages : 0 < setup.pageSize
  timeout : Timeout.check setup.config.lockTimeout = .ok ()
  faults : s.faults = []
  field : s.database.keyField? selector.tableName = some field
  hook : Entries.find? s.hooks selector.tableName = none
  numbers : ∀ code ∈ Target.listed s.database selector,
    ∀ d ∈ s.database.find? selector.tableName code, d.lacksNaN = true
  free : ∀ code ∈ Target.listed s.database selector, s.locks.IsFree (selector.tableName, code)
  valid : selector.IsValid
  range : ∀ table predicate, selector = .filter table predicate →
    ∀ r ∈ Target.rowsOf s.database table, Predicate.overflows predicate r.body = false
  conflict : options.conflict = .builtin .error

section Requests

variable {setup : Setup} {s t : StoreState} {selector : Selector Term} {options : Options}
variable {table field : String} {report : WriteReport}

/-- The keys that a filter by a pattern finds are those of the documents that it selects. -/
theorem Target.filter_found (h : Patch.IsPattern entries pattern) (pages : 0 < setup.pageSize)
    (rows : s.database.InOrder) (faults : s.faults = [])
    (own : s.database.keyField? table = some field) :
    ∃ found u, (keys table field (.filter table (.mapping entries))).exec setup s =
        (.ok found, u) ∧
      ∀ code, code ∈ found.map Value.code ↔
        (s.database.find? table code).any (Predicate.isMatch (.mapping entries)) = true := by
  have valid : (Selector.filter table (Term.mapping entries)).IsValid := trivial
  have searched : Ensures setup s (keys table field (.filter table (.mapping entries)))
      fun r _ => (∀ keys, r = .ok keys → Selected setup s.database s.calls field
          (.filter table (.mapping entries)) keys) ∧
        Surveyed s.database (.filter table (.mapping entries)) r :=
    (keys_selected pages rows own rfl).and (keys_undisturbed pages rows faults own valid)
  unfold Ensures at searched
  generalize (keys table field (.filter table (.mapping entries))).exec setup s = ended
    at searched ⊢
  obtain ⟨f | found, u⟩ := ended
  -- A mapping meets no number out of range.
  · obtain ⟨-, -, _, _, ⟨⟩, r, -, overflows⟩ := searched
    rw [Predicate.overflows_of_selects_ok (h.selects r.body)] at overflows
    cases overflows
  · refine ⟨found, u, rfl, fun code => ?_⟩
    rw [((searched.1 found rfl).perm rows valid own).mem_iff, Option.any_eq_true]
    constructor
    · intro listed
      obtain ⟨r, hr, rfl⟩ := List.mem_map.1 listed
      exact ⟨r.body, find?_of_mem_rows rows hr, (List.mem_filter.1 hr).2⟩
    · rintro ⟨d, hd, selected⟩
      obtain ⟨r, hr, at_code, rfl⟩ := Database.exists_of_find? hd
      obtain ⟨in_table, rfl⟩ := (Database.isAt_iff r _ _).1 at_code
      exact List.mem_map_of_mem
        (List.mem_filter.2 ⟨List.mem_filter.2 ⟨hr, beq_iff_eq.2 in_table⟩, selected⟩)

/-- An update by a pattern that came to its outcomes: its targets are the listed keys, and each has
taken its turn at the document that stood there before. -/
structure Writer.Turned (setup : Setup) (s : StoreState) (selector : Selector Term)
    (entries : List (Term × Term)) (request : Request) (tasks : List Task)
    (os : List DocumentOutcome) : Prop where
  table : selector.tableName = request.table
  field : s.database.keyField? selector.tableName = some request.keyField
  hook : request.hook = none
  keys : ∀ task ∈ tasks, task.key.isKey = true
  work : ∀ task ∈ tasks, task.work = .update (.mapping entries)
  codes : (tasks.map fun task => task.key.code).Perm (Target.listed s.database selector)
  turns : List.Forall₂ (fun task o => ∃ next, MarkedTurn
    (fun code => s.locks.isHeld (request.table, code)) setup request task
      (s.database.find? request.table task.key.code) o next) (inTurn tasks) os

theorem Writer.exists_turned (sound : s.Sound) (clear : IsClear setup s selector options field)
    (came : (execute selector (.update (.mapping entries)) options).exec setup s =
      (.ok report, t)) :
    ∃ request tasks os, report = Report.ofOutcomes options.detail (inOrder os) ∧
      Turned setup s selector entries request tasks os := by
  have orderly : s.Orderly :=
    ⟨by rw [clear.faults]; exact List.forall_mem_nil _, sound.locks⟩
  obtain ⟨request, tasks, p, os, u, planned, processed, rfl, -⟩ := exists_of_execute came
  obtain ⟨own, request_eq, found⟩ := tasks_of_plan orderly planned
  have quiet := plan_browses browsing_quiet selector (.update (.mapping entries)) options setup s
  rw [planned] at quiet
  have name : selector.tableName = request.table := (congrArg Request.table request_eq).symm
  have hook : request.hook = none := (congrArg Request.hook request_eq).trans clear.hook
  have conflict : request.options.conflict = .builtin .error :=
    (congrArg (fun r : Request => r.options.conflict) request_eq).trans clear.conflict
  obtain ⟨shape, ⟨keys, selected, made⟩, -⟩ := Target.tasks_planned (s := s.tick) clear.pages
    sound.rows (name ▸ own) name (.update (.mapping entries)) tasks (congrArg Prod.fst found)
  have codes : (tasks.map fun task => task.key.code) = keys.map Value.code := by
    rw [made, Target.map_code_tasksOn]
  have work : ∀ task ∈ tasks, task.work = .update (.mapping entries) := by
    rw [made]
    exact fun task ht => (Target.mem_tasksOn ht).2
  have pure : ∀ task ∈ tasks, Commit.AsksPure setup request task := fun task ht =>
    ⟨fun f hf => (nomatch hook.symm.trans hf), fun f hf => (nomatch conflict.symm.trans hf),
      fun p hp => (nomatch conflict.symm.trans hp), fun patch f update called => by
        cases (work task ht).symm.trans update
        cases called⟩
  have turns := turns_of_processed (quiet.faults.trans clear.faults) (quiet.locks ▸ sound.locks)
    clear.timeout shape.keys (codes ▸ selected.nodup sound.rows own) pure processed
  -- The plan has changed neither the documents nor the locks.
  rw [quiet.database, quiet.locks] at turns
  exact ⟨request, tasks, os, rfl, name, own, hook, shape.keys, work,
    codes ▸ selected.perm sound.rows clear.valid own, turns⟩

/-- Where nothing is in the way, an update by a pattern counts as unchanged those of its targets
whose documents the pattern selects. -/
theorem Writer.unchanged_of_execute (h : Patch.IsPattern entries pattern) (sound : s.Sound)
    (clear : IsClear setup s selector options field)
    (came : (execute selector (.update (.mapping entries)) options).exec setup s =
      (.ok report, t)) :
    report.unchanged = (Target.listed s.database selector).countP fun code =>
      (s.database.find? selector.tableName code).any (Predicate.isMatch (.mapping entries)) := by
  obtain ⟨request, tasks, os, rfl, turned⟩ := exists_turned sound clear came
  have unchanged : ∀ task ∈ inTurn tasks, ∀ o, (∃ next, MarkedTurn
      (fun code => s.locks.isHeld (request.table, code)) setup request task
        (s.database.find? request.table task.key.code) o next) →
      (decide (o.kind = .unchanged) = true ↔ (s.database.find? selector.tableName
        task.key.code).any (Predicate.isMatch (.mapping entries)) = true) := by
    rintro task ht o ⟨next, turn⟩
    have ht := (inTurn_perm tasks).subset ht
    have listed : task.key.code ∈ Target.listed s.database selector :=
      turned.codes.subset (List.mem_map_of_mem ht)
    rw [← turned.table] at turn
    rw [decide_eq_true_eq]
    exact turn.unchanged_iff (LockTable.isHeld_eq_false_iff.2 (clear.free _ listed)) h turned.hook
      (turned.work task ht) (turned.keys task ht)
      (fun d hd => ⟨sound.settled.find? hd, clear.numbers _ listed d hd⟩)
      fun d hd => sound.rows.isKeyed_of_find? turned.field hd
  calc (Report.ofOutcomes options.detail (inOrder os)).unchanged
    _ = (inOrder os).countP (fun o => decide (o.kind = .unchanged)) :=
      Report.tally_ofOutcomes _ .unchanged
    _ = os.countP (fun o => decide (o.kind = .unchanged)) := (inOrder_perm os).countP_eq _
    _ = (inTurn tasks).countP (fun task => (s.database.find? selector.tableName
          task.key.code).any (Predicate.isMatch (.mapping entries))) :=
      countP_eq_of_forall₂ turned.turns unchanged
    _ = tasks.countP (fun task => (s.database.find? selector.tableName task.key.code).any
          (Predicate.isMatch (.mapping entries))) := (inTurn_perm tasks).countP_eq _
    _ = (tasks.map fun task => task.key.code).countP (fun code =>
          (s.database.find? selector.tableName code).any (Predicate.isMatch (.mapping entries))) :=
      by rw [List.countP_map]; rfl
    _ = _ := turned.codes.countP_eq _

/-- A partial match and an update by one pattern agree. A document has all of the pattern exactly if
merging the pattern leaves it the same, and what comes of the merge always has all of it. So where
nothing is in the way of an update by the pattern in a reachable store, the report on it counts as
unchanged exactly those targets that a filter by the pattern finds: of a document that is named by
its key, the one or none. -/
theorem Patch.IsPattern.unchanged_iff_found (h : IsPattern entries pattern) :
    (∀ d : Document, d.IsStable → ∃ merged : Term,
      (∀ setup s, (Commit.applyPatch d.toTerm (.mapping entries)).exec setup s = (.ok merged, s)) ∧
      (Predicate.selects (.mapping entries) d.toTerm = .ok true ↔ merged.same d.toTerm = true) ∧
      Predicate.selects (.mapping entries) merged = .ok true) ∧
    ∀ (c : Console) (setup : Setup) (selector : Selector Term) (options : Options) (field : String),
      c.Reachable → Writer.IsClear setup c.state selector options field →
        ∃ report t found u,
          (Writer.mutate (.selector selector) (.mutation (.update (.mapping entries)))
            options).exec setup c.state = (.ok report, t) ∧
          (Target.keys selector.tableName field (.filter selector.tableName
            (.mapping entries))).exec setup c.state = (.ok found, u) ∧
          report.total = (Target.listed c.state.database selector).length ∧
          report.unchanged = (Target.listed c.state.database selector).countP fun code =>
            (found.map Value.code).contains code := by
  refine ⟨fun d stable => ⟨(d.merge pattern).toTerm, h.exec_applyPatch d, ?_, ?_⟩, ?_⟩
  · rw [h.selects, Except.ok.injEq]
    exact Document.match_iff stable h.stable.settled
  · rw [h.selects, Document.match_merge stable h.stable]
  · intro c setup selector options field reachable clear
    have sound := reachable.sound
    have inRange : InRange c.state.database selector (.mapping entries) :=
      ⟨clear.range, fun r _ => Patch.overflows_of_ok (h.evaluate r.body.toTerm)⟩
    obtain ⟨r, t, -, came, updated⟩ := Writer.mutate_undisturbed reachable clear.pages
      clear.faults clear.timeout clear.valid (Option.isSome_iff_exists.2 ⟨field, clear.field⟩)
      clear.free h.replayable.valid clear.conflict
    obtain ⟨os, rfl⟩ : ∃ os, r = .ok os := by
      cases r with
      | error f => exact absurd inRange updated.2
      | ok os => exact ⟨os, rfl⟩
    obtain ⟨found, u, searched, selected⟩ :=
      Target.filter_found h clear.pages sound.rows clear.faults clear.field
    refine ⟨_, t, found, u, came, searched, updated.2.total options.detail, ?_⟩
    rw [Writer.unchanged_of_execute h sound clear came]
    refine List.countP_congr fun code _ => ?_
    rw [List.contains_iff_mem]
    exact (selected code).symm

end Requests

/-- A person with contact data and a list of tags. -/
def contacted : Document :=
  [("id", .scalar (.number (.int 1))),
    ("tags", .list [.scalar (.number (.int 1)), .scalar (.number (.int 2))]),
    ("contact", .object [("phone", .scalar (.text "1")), ("mail", .scalar .null)])]

/-- A small store with a person who has contact data and one who has none. -/
def Console.contacts : Console := .after .echo
  [.command (.create (.text "people") (.text "id")), .insert contacted.toTerm (.text "error"),
    .insert (person (.int 2) "eve") (.text "error")]

theorem contacted_isStable : contacted.IsStable :=
  ⟨⟨by decide, trivial, ⟨trivial, trivial, trivial⟩, ⟨by decide, trivial, trivial, trivial⟩,
    trivial⟩, rfl⟩

theorem Console.reachable_contacts : contacts.Reachable := by
  have handed : contacted.toTerm.IsSettled := contacted_isStable.settled.toTerm
  refine reachable_after Setup.isSettled_echo (by decide) ?_
  simp [Entry.IsManaged, Entry.insert, Command.IsManaged, person, handed, Term.IsSettled,
    Term.SettledEntries, Term.labels, Term.label?, Term.text, Term.int]

/-- Two tags, given as a tuple, and a mail address that is null. -/
def unmailed : List (Term × Term) :=
  [(.text "tags", .tuple [.int 1, .int 2]), (.text "contact", .mapping [(.text "mail", .null)])]

/-- The codes of the persons that a filter by the pattern finds. -/
def unmailedCodes : List String :=
  match ((Target.keys "people" "id" (.filter "people" (.mapping unmailed))).exec .echo
    Console.contacts.state).1 with
  | .ok found => found.map Value.code
  | .error _ => []

/-- Of two persons one has the tags and no mail address. The patch leaves that document the same,
and an update of both reports it as unchanged. -/
theorem Patch.IsPattern.unchanged_iff_found_unmailed : ∃ pattern, IsPattern unmailed pattern ∧
    contacted.IsStable ∧ Console.contacts.Reachable ∧
    Writer.IsClear .echo Console.contacts.state (.table "people") .standard "id" ∧
    (∃ merged : Term, (∀ setup s, (Commit.applyPatch contacted.toTerm
        (.mapping unmailed)).exec setup s = (.ok merged, s)) ∧
      merged.same contacted.toTerm = true) ∧
    ∃ report t, (Writer.mutate (.selector (.table "people"))
        (.mutation (.update (.mapping unmailed))) .standard).exec .echo Console.contacts.state =
          (.ok report, t) ∧ report.total = 2 ∧ report.unchanged = 1 := by
  have pattern : IsPattern unmailed
      [("tags", .list [.scalar (.number (.int 1)), .scalar (.number (.int 2))]),
        ("contact", .object [("mail", .scalar .null)])] := by
    refine ⟨?_, rfl, rfl⟩
    simp [unmailed, Term.IsSettled, Term.SettledEntries, Term.SettledItems, Term.labels,
      Term.label?, Term.text, Term.int, Term.null]
  have clear : Writer.IsClear .echo Console.contacts.state (.table "people") .standard "id" := by
    have none : Console.contacts.state.locks.held = [] := by decide +kernel
    refine ⟨by decide, by decide +kernel, ?_, by decide +kernel, by decide +kernel,
      by decide +kernel, fun code _ e _ => ?_, trivial, by rintro _ _ ⟨⟩, rfl⟩
    · exact List.length_eq_zero_iff.1
        (by decide +kernel : Console.contacts.state.faults.length = 0)
    · rw [none]
      exact List.not_mem_nil
  have selected : Predicate.matchValue (.mapping unmailed) contacted.toTerm = true := by
    decide +kernel
  obtain ⟨documents, requests⟩ := pattern.unchanged_iff_found
  obtain ⟨merged, applied, agree, -⟩ := documents contacted contacted_isStable
  obtain ⟨report, t, found, u, came, searched, total, unchanged⟩ := requests Console.contacts .echo
    (.table "people") .standard "id" Console.reachable_contacts clear
  refine ⟨_, pattern, contacted_isStable, Console.reachable_contacts, clear,
    ⟨merged, applied, agree.1 (congrArg Except.ok selected)⟩, report, t, came,
    total.trans (by decide +kernel), ?_⟩
  have codes : found.map Value.code = unmailedCodes := by
    unfold unmailedCodes
    rw [show (Target.keys "people" "id" (.filter "people" (.mapping unmailed))).exec .echo
      Console.contacts.state = (.ok found, u) from searched]
  rw [unchanged, codes]
  decide +kernel

end Folio
