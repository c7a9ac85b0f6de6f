import Folio.Proofs.Outcomes
import Folio.Proofs.Reachability
import Folio.Proofs.Requests
import Folio.Proofs.Selecting
/-!
# Updates with numbers in range

An update by a mapping that nothing disturbs comes to a report on every target, as long as no number
is out of range: neither where the predicate of a filter looks at a document, nor where the patch is
evaluated on a selected one. An expression that cannot be evaluated for any other reason is an error
of its document, or does not select it. A number out of range is the failure of the whole request.
-/

namespace Folio

open Run StoreState

/-- No number is out of range, neither for the predicate of a filter on a document of the table nor
for the patch on the document of a selected row. -/
structure InRange (db : Database) (selector : Selector Term) (patch : Term) : Prop where
  predicate : ∀ table predicate, selector = .filter table predicate →
    ∀ r ∈ Target.rowsOf db table, Predicate.overflows predicate r.body = false
  patch : ∀ r ∈ Target.rows db selector, Patch.overflows patch r.body = false

/-- The number of selected documents on which the patch cannot be evaluated. -/
def failing (db : Database) (selector : Selector Term) (patch : Term) : Nat :=
  (Target.rows db selector).countP fun r => Patch.fails patch r.body

/-- Outcomes of an update, as against the documents in a database: one for each listed key, and the
outcome of a document on which the patch cannot be evaluated is an error. -/
structure Answers (db : Database) (selector : Selector Term) (patch : Term)
    (os : List DocumentOutcome) : Prop where
  keys : (os.map fun o => o.key.code).Perm (Target.listed db selector)
  failed : ∀ o ∈ os, ∀ r ∈ Target.rows db selector, r.code = o.key.code →
    Patch.fails patch r.body = true → o.kind = .error

/-- What an update comes to, as against the documents in a database: an outcome for each target, or
a number is out of range. -/
def Updated (db : Database) (selector : Selector Term) (patch : Term) :
    Except Failure (List DocumentOutcome) → Prop
  | .ok os => InRange db selector patch ∧ Answers db selector patch os
  | .error f => f.kind = .overflow ∧ ¬ InRange db selector patch

variable {setup : Setup} {s t : StoreState} {selector : Selector Term} {options : Options}
variable {entries : List (Term × Term)} {request : Request} {codes : List String} {patch : Term}
variable {keys : List Value} {os : List DocumentOutcome}

theorem StoreState.Undisturbed.of_quiet {table : String} (h : s.Undisturbed table codes)
    (quiet : Quiet s t) : t.Undisturbed table codes := by
  refine ⟨quiet.faults.trans h.faults, ?_, ?_⟩
  · rw [quiet.locks]
    exact h.locks
  · rw [quiet.locks]
    exact h.free

/-! ## Counting errors -/

namespace Answers

variable {db : Database}

theorem perm (h : Answers db selector patch os) {others : List DocumentOutcome}
    (perm : others.Perm os) : Answers db selector patch others :=
  ⟨(perm.map _).trans h.keys, fun o ho => h.failed o (perm.subset ho)⟩

/-- Each listed key has an outcome. -/
theorem exists_of_mem (h : Answers db selector patch os) {code : String}
    (hc : code ∈ Target.listed db selector) : ∃ o ∈ os, o.key.code = code :=
  List.mem_map.1 (h.keys.symm.subset hc)

theorem total (h : Answers db selector patch os) (detail : ChangeDetail) :
    (Report.ofOutcomes detail os).total = (Target.listed db selector).length := by
  rw [Report.total_ofOutcomes, ← h.keys.length_eq, List.length_map]

/-- Different documents on which the patch fails have different outcomes. -/
theorem failing_le (h : Answers db selector patch os) (ho : db.InOrder) :
    failing db selector patch ≤ os.countP fun o => o.kind = .error := by
  rw [failing, List.countP_eq_length_filter, List.countP_eq_length_filter]
  rw [← List.length_map Row.code, ← List.length_map fun o : DocumentOutcome => o.key.code]
  refine (List.subperm_of_subset ?_ fun code hc => ?_).length_le
  · exact (Target.nodup_rows ho selector).sublist (List.filter_sublist.map _)
  · obtain ⟨r, hr, rfl⟩ := List.mem_map.1 hc
    obtain ⟨hr, fails⟩ := List.mem_filter.1 hr
    obtain ⟨o, mem, code⟩ := h.exists_of_mem (Target.code_mem_listed hr)
    have error := h.failed o mem r hr code.symm fails
    exact List.mem_map.2 ⟨o, List.mem_filter.2 ⟨mem, decide_eq_true error⟩, code⟩

end Answers

/-! ## Requests -/

namespace Target

/-- Without faults an update is planned, unless a predicate meets a number out of range. -/
theorem tasks_undisturbed (hp : 0 < setup.pageSize) (h : s.database.InOrder)
    (faults : s.faults = []) (ht : request.table = selector.tableName)
    (hf : s.database.keyField? selector.tableName = some request.keyField)
    (valid : selector.IsValid) (hpatch : (Term.mapping entries).validatePatch "" = .ok ())
    (conflict : request.options.conflict = .builtin .error) :
    Ensures setup s (tasks request selector (.update (.mapping entries))) fun r _ =>
      match r with
      | .ok tasks => ∃ keys, tasks = tasksOn (.update (.mapping entries)) keys ∧
        Selected setup s.database s.calls request.keyField selector keys ∧
          Surveyed s.database selector (.ok keys)
      | .error f => Surveyed s.database selector (.error f) := by
  have options : checkConflict request.options = .ok () := if_pos conflict
  have patch : checkPatch (.mapping entries) = .ok () := by
    unfold checkPatch
    dsimp only
    rw [hpatch]
  unfold tasks
  refine ensures_ofExcept_bind (fun _ _ => ?_) fun f hf => nomatch options.symm.trans hf
  refine ensures_ofExcept_bind (fun _ _ => ?_) fun f hf => nomatch patch.symm.trans hf
  unfold selectedTasks
  rw [ht]
  have found := (keys_selected hp h hf (rfl : selector.tableName = _)).and
    (keys_undisturbed hp h faults hf valid)
  refine found.bind ?_ ?_
  · rintro keys t ⟨selected, surveyed⟩
    exact ⟨keys, rfl, selected keys rfl, surveyed⟩
  · exact fun f t ended => ended.2

/-- The tasks on the selected keys merge the mapping into documents with different keys. -/
theorem merges_tasksOn (h : s.database.InOrder) (valid : selector.IsValid) {field : String}
    (hf : s.database.keyField? selector.tableName = some field)
    (hs : Selected setup s.database s.calls field selector keys) :
    Merges entries (listed s.database selector) (tasksOn (.update (.mapping entries)) keys) := by
  have perm := hs.perm h valid hf
  refine ⟨fun task ht => hs.isKey h hf _ (mem_tasksOn ht).1, fun task ht => (mem_tasksOn ht).2,
    fun task ht => ?_, ?_⟩
  · exact perm.subset (List.mem_map_of_mem (mem_tasksOn ht).1)
  · rw [map_code_tasksOn]
    refine perm.nodup_iff.2 ?_
    cases selector with
    | get table key =>
      obtain ⟨k, hk⟩ := valid
      rw [listed, codes_cons hk]
      exact List.nodup_singleton _
    | getAll table keys => exact nodup_rows h (.getAll table keys)
    | filter table predicate => exact nodup_rows h (.filter table predicate)
    | table name => exact nodup_rows h (.table name)

end Target

namespace Writer

/-- A batch on the selected keys comes to an outcome for each of them, or a number is out of range
for a selected document. -/
theorem updated_of_patchedAll (h : s.database.InOrder) (valid : selector.IsValid) {field : String}
    (hf : s.database.keyField? selector.tableName = some field)
    (hs : Target.Selected setup s.database s.calls field selector keys)
    (predicate : ∀ table predicate, selector = .filter table predicate →
      ∀ r ∈ Target.rowsOf s.database table, Predicate.overflows predicate r.body = false)
    {r : Except Failure (List DocumentOutcome)}
    (patched : PatchedAll patch selector.tableName s.database
      (inTurn (Target.tasksOn (.update patch) keys)) r) :
    Updated s.database selector patch (r.map inOrder) := by
  have perm : ((inTurn (Target.tasksOn (.update patch) keys)).map fun task =>
      task.key.code).Perm (Target.listed s.database selector) := by
    refine ((inTurn_perm _).map _).trans ?_
    rw [Target.map_code_tasksOn]
    exact hs.perm h valid hf
  cases r with
  | ok os =>
    have codes : os.map (fun o => o.key.code) =
        (inTurn (Target.tasksOn (.update patch) keys)).map fun task => task.key.code :=
      map_eq_of_forall₂ patched fun task o ho => by rw [ho.1]
    have answers : Answers s.database selector patch os := by
      refine ⟨codes ▸ perm, fun o mem r hr code fails => ?_⟩
      obtain ⟨task, -, key, ho⟩ := exists_of_forall₂ patched mem
      refine (ho r.body ?_).2 fails
      rw [← key, ← code]
      exact Target.find?_of_mem_rows h hr
    refine ⟨⟨predicate, fun r hr => ?_⟩, answers.perm (inOrder_perm os)⟩
    -- Each selected row has a task, and the outcome of that shows no overflow.
    obtain ⟨task, ht, code⟩ := List.mem_map.1 (perm.symm.subset (Target.code_mem_listed hr))
    obtain ⟨o, -, -, ho⟩ := exists_of_forall₂ (List.Forall₂.flip patched) ht
    refine (ho r.body ?_).1
    rw [code]
    exact Target.find?_of_mem_rows h hr
  | error f =>
    -- The document of the failed task is that of a selected row.
    obtain ⟨task, ht, kind, old, hold, overflows⟩ := patched
    refine ⟨kind, fun range => ?_⟩
    obtain ⟨r, hr, rfl⟩ := Target.exists_row_of_listed h
      (perm.subset (List.mem_map_of_mem ht)) hold
    rw [range.patch r hr] at overflows
    cases overflows

theorem outcomes_undisturbed (hp : 0 < setup.pageSize) (h : s.database.InOrder)
    (undisturbed : s.Undisturbed selector.tableName (Target.listed s.database selector))
    (timeout : Timeout.check setup.config.lockTimeout = .ok ()) {field : String}
    (hf : s.database.keyField? selector.tableName = some field) (valid : selector.IsValid)
    (hpatch : (Term.mapping entries).validatePatch "" = .ok ())
    (conflict : options.conflict = .builtin .error) :
    Ensures setup s (outcomes selector (.update (.mapping entries)) options) fun r _ =>
      Updated s.database selector (.mapping entries) r := by
  simp only [outcomes, plan, bind_assoc, pure_bind]
  refine (Store.keyField_undisturbed undisturbed.faults hf).bind ?_ (by rintro f t ⟨⟨⟩, -⟩)
  rintro _ _ ⟨⟨⟩, n, rfl⟩
  -- The state to go on in differs in the count of operations only.
  have started : Quiet s { s with operations := n } := (ticked_operations s n).quiet
  refine ensures_get ?_
  generalize hr : (⟨selector.tableName, field, options,
    Entries.find? s.hooks selector.tableName⟩ : Request) = request
  have table : request.table = selector.tableName := by rw [← hr]
  have planned := (@Target.tasks_undisturbed setup { s with operations := n } selector entries
    request hp h undisturbed.faults table (by rw [← hr]; exact hf) valid hpatch
      (by rw [← hr]; exact conflict)).and
        (Target.tasks_browses browsing_quiet request selector (.update (.mapping entries))).ensures
  refine planned.bind ?_ ?_
  · rintro _ t ⟨⟨keys, rfl, hs, predicate⟩, quiet⟩
    have field : s.database.keyField? selector.tableName = some request.keyField := by
      rw [← hr]
      exact hf
    have merges : Merges entries (Target.listed s.database selector)
        (Target.tasksOn (.update (.mapping entries)) keys) :=
      Target.merges_tasksOn h valid field hs
    have free : t.Undisturbed request.table (Target.listed s.database selector) := by
      rw [table]
      exact (undisturbed.of_quiet started).of_quiet quiet
    refine (processTasks_undisturbed merges free timeout).bind ?_ ?_
    -- Planning has not changed a document, so the batch meets those of the start.
    · rintro os u patched
      rw [quiet.database, table] at patched
      exact updated_of_patchedAll h valid field hs predicate patched
    · rintro f u patched
      rw [quiet.database, table] at patched
      exact updated_of_patchedAll h valid field hs predicate patched
  -- The scan of a filter has failed before anything was processed.
  · rintro f t ⟨⟨kind, table, predicate, hsel, r, hr, overflows⟩, -⟩
    refine ⟨kind, fun range => ?_⟩
    rw [range.predicate table predicate hsel r hr] at overflows
    cases overflows

section Mutate

variable {c : Console}

/-- Where the database does not fail and the locks can be had, an update by a mapping reports on the
outcomes of its targets, or fails for a number out of range. -/
theorem mutate_undisturbed (hc : c.Reachable) (hp : 0 < setup.pageSize)
    (faults : c.state.faults = []) (timeout : Timeout.check setup.config.lockTimeout = .ok ())
    (valid : selector.IsValid)
    (exist : (c.state.database.keyField? selector.tableName).isSome = true)
    (free : ∀ code ∈ Target.listed c.state.database selector,
      c.state.locks.IsFree (selector.tableName, code))
    (hpatch : (Term.mapping entries).validatePatch "" = .ok ())
    (conflict : options.conflict = .builtin .error) :
    ∃ r t, ((outcomes selector (.update (.mapping entries)) options).exec setup c.state).1 = r ∧
      (mutate (.selector selector) (.mutation (.update (.mapping entries))) options).exec setup
        c.state = (r.map (Report.ofOutcomes options.detail), t) ∧
      Updated c.state.database selector (.mapping entries) r := by
  have sound := hc.sound
  obtain ⟨field, hf⟩ := Option.isSome_iff_exists.1 exist
  have updated := outcomes_undisturbed hp sound.rows ⟨faults, sound.locks, free⟩ timeout hf valid
    hpatch conflict
  have reported := (@execute_outcomes setup c.state selector (.update (.mapping entries)) options).1
  exact ⟨_, _, rfl, Prod.ext reported rfl, updated⟩

/-- Where the database does not fail and the locks can be had, an update by a mapping comes to a
report on an outcome for each target, if no number is out of range: each selected document on which
the patch cannot be evaluated has an error for its outcome, and is counted as one. If a number is
out of range, then the request fails for it. -/
theorem mutate_in_range (hc : c.Reachable) {setup : Setup}
    (hp : 0 < setup.pageSize) (faults : c.state.faults = [])
    (timeout : Timeout.check setup.config.lockTimeout = .ok ()) {selector : Selector Term}
    (valid : selector.IsValid)
    (exist : (c.state.database.keyField? selector.tableName).isSome = true)
    (free : ∀ code ∈ Target.listed c.state.database selector,
      c.state.locks.IsFree (selector.tableName, code))
    {entries : List (Term × Term)} (hpatch : (Term.mapping entries).validatePatch "" = .ok ())
    {options : Options} (conflict : options.conflict = .builtin .error) :
    (InRange c.state.database selector (.mapping entries) →
      ∃ report t os, (mutate (.selector selector) (.mutation (.update (.mapping entries)))
          options).exec setup c.state = (.ok report, t) ∧
        ((outcomes selector (.update (.mapping entries)) options).exec setup c.state).1 = .ok os ∧
          report = Report.ofOutcomes options.detail os ∧
            Answers c.state.database selector (.mapping entries) os ∧
              report.total = (Target.listed c.state.database selector).length ∧
                failing c.state.database selector (.mapping entries) ≤ report.errors) ∧
      (¬ InRange c.state.database selector (.mapping entries) →
        ∃ f t, (mutate (.selector selector) (.mutation (.update (.mapping entries)))
          options).exec setup c.state = (.error f, t) ∧ f.kind = .overflow) := by
  obtain ⟨r, t, found, came, updated⟩ :=
    mutate_undisturbed hc hp faults timeout valid exist free hpatch conflict
  cases r with
  | error f => exact ⟨fun range => absurd range updated.2, fun _ => ⟨f, t, came, updated.1⟩⟩
  | ok os =>
    obtain ⟨range, answers⟩ := updated
    refine ⟨fun _ => ⟨_, t, os, came, found, rfl, answers, ?_, ?_⟩,
      fun others => absurd range others⟩
    · exact answers.total options.detail
    · refine Nat.le_trans (answers.failing_le hc.sound.rows) (Nat.le_of_eq ?_)
      exact (Report.tally_ofOutcomes os .error).symm

end Mutate

/-- A small store with an integer that is too large for a binary64. -/
def wide : Console := .after .echo
  [.command (.create (.text "people") (.text "id")),
    .insert (.mapping [(.text "id", .int 1), (.text "age", .int 40)]) (.text "error"),
    .insert (.mapping [(.text "id", .int 2),
      (.text "age", .int (.ofNat (Nat.pow (Nat.pow 2 128) 8)))]) (.text "error"),
    .insert (person (.int 3) "eve") (.text "error")]

theorem reachable_wide : wide.Reachable := by
  refine Console.reachable_after Setup.isSettled_echo (by decide) ?_
  simp [Entry.IsManaged, Entry.insert, Command.IsManaged, person, Term.IsSettled,
    Term.SettledEntries, Term.labels, Term.label?, Term.text, Term.int]

/-- A patch that adds a half to the age. -/
def older : List (Term × Term) :=
  [(.text "age", .expression 0 (.operation (.arithmetic .add) (.field 0 .row "age")
    (.const (.scalar (.number (.float (Binary64.ofDecimal false 5 (-1))))))))]

/-- Of the first and the third document, one gets older and the outcome of the other is an error; the
second one ends the request. -/
theorem mutate_in_range_wide :
    (∃ report t os, (mutate (.selector (.getAll "people" [.int 1, .int 3]))
        (.mutation (.update (.mapping older))) .standard).exec .echo wide.state = (.ok report, t) ∧
      report = Report.ofOutcomes Options.standard.detail os ∧
        (∃ o ∈ os, o.key.code = "3" ∧ o.kind = .error) ∧ report.total = 2 ∧ 1 ≤ report.errors) ∧
    ∃ f t, (mutate (.selector (.table "people")) (.mutation (.update (.mapping older)))
        .standard).exec .echo wide.state = (.error f, t) ∧ f.kind = .overflow := by
  have free : ∀ identity, wide.state.locks.IsFree identity := by
    intro identity e _
    have none : wide.state.locks.held = [] := by decide +kernel
    rw [none]
    exact List.not_mem_nil
  have updated := fun (selector : Selector Term) (valid : selector.IsValid) exist =>
    @mutate_in_range wide reachable_wide .echo (by decide) (by decide +kernel) (by decide +kernel)
      selector valid exist (fun _ _ => free _) older (by decide +kernel) .standard rfl
  constructor
  · have valid : (Selector.getAll "people" [.int 1, .int 3] : Selector Term).IsValid := by
      simp [Selector.IsValid, Target.validKey, Term.int, Scalar.isKey]
    have range : InRange wide.state.database (.getAll "people" [.int 1, .int 3])
        (.mapping older) := by
      constructor
      · intro table predicate h
        cases h
      · decide +kernel
    obtain ⟨report, t, os, h, -, made, answers, total, errors⟩ :=
      (updated _ valid (by decide +kernel)).1 range
    have third : ∃ r ∈ Target.rows wide.state.database (.getAll "people" [.int 1, .int 3]),
        r.code = "3" ∧ Patch.fails (.mapping older) r.body = true := by decide +kernel
    obtain ⟨r, hr, code, fails⟩ := third
    obtain ⟨o, mem, same⟩ := answers.exists_of_mem (Target.code_mem_listed hr)
    refine ⟨report, t, os, h, made, ⟨o, mem, same.trans code, ?_⟩,
      total.trans (by decide +kernel), ?_⟩
    · exact answers.failed o mem r hr same.symm fails
    · have failed : failing wide.state.database (.getAll "people" [.int 1, .int 3])
          (.mapping older) = 1 := by decide +kernel
      rwa [failed] at errors
  · have outOfRange : ¬ InRange wide.state.database (.table "people") (.mapping older) := by
      intro range
      have : ¬ ∀ r ∈ Target.rows wide.state.database (.table "people"),
          Patch.overflows (.mapping older) r.body = false := by decide +kernel
      exact this range.patch
    exact (updated (.table "people") trivial (by decide +kernel)).2 outOfRange

end Writer

end Folio
