import Folio.Proofs.Reachability
import Folio.Proofs.Reporting
/-!
# Replaying a report

The changes in a report are a log of what happened to the table: replayed one after the other on
the documents that were there, they lead to the documents that are there now. They are listed in the
order of the request, which need not be the order of processing. But the changes of one key come in
the same order in both, and changes of different keys do not meet.
-/

namespace Folio

open Run StoreState

/-! ## Changes and their replay -/

namespace Change

/-- Every document of the change, and there is one, holds the key with the code. -/
structure IsAt (field code : String) (change : Change Document) : Prop where
  present : change.before ≠ none ∨ change.after ≠ none
  before : ∀ d ∈ change.before, d.IsKeyed field code
  after : ∀ d ∈ change.after, d.IsKeyed field code

/-- Whether there is a document before and after. -/
def isForm (before after : Bool) (change : Change Document) : Bool :=
  change.before.isSome == before && change.after.isSome == after

end Change

/-- The documents by the codes of their keys. -/
abbrev Documents := String → Option Document

/-- Replays changes: each shows the document that is there under its key, and puts another one in
its place or removes it. -/
inductive Replays (field : String) : Documents → List (Change Document) → Documents → Prop
  | nil (m : Documents) : Replays field m [] m
  | cons {m last : Documents} {code : String} {change : Change Document}
      {changes : List (Change Document)} (key : change.IsAt field code)
      (before : change.before = m code)
      (rest : Replays field (Function.update m code change.after) changes last) :
      Replays field m (change :: changes) last

/-! ## What outcomes say of one key -/

/-- The kind of an outcome that put one document, or none, in the place of another. -/
def writeKind (before after : Option Document) : OutcomeKind :=
  if after.isNone then .deleted else if before.isNone then .inserted else .replaced

/-- What an outcome says became of the document of its key. -/
inductive Records (field : String) (o : DocumentOutcome) :
    Option Document → Option Document → Prop
  | nothing (d : Option Document) (kind : o.kind.isWrite = false) : Records field o d d
  | written {d next : Option Document} (kind : o.kind = writeKind d next) (before : o.before = d)
      (after : o.after = next) (key : Change.IsAt field o.key.code ⟨d, next, none⟩) :
      Records field o d next

/-- Outcomes of one key, each of which starts with the document that the one before it left. -/
inductive Chain (field : String) :
    Option Document → List DocumentOutcome → Option Document → Prop
  | nil (d : Option Document) : Chain field d [] d
  | cons {d next last : Option Document} {o : DocumentOutcome} {os : List DocumentOutcome}
      (head : Records field o d next) (tail : Chain field next os last) :
      Chain field d (o :: os) last

/-- The outcome is one of the key with the code. -/
def hasKey (code : String) (o : DocumentOutcome) : Bool := o.key.code == code

variable {field : String} {o : DocumentOutcome} {d next : Option Document}

theorem isWrite_writeKind (before after : Option Document) :
    (writeKind before after).isWrite = true := by
  unfold writeKind
  split
  · rfl
  · split <;> rfl

/-- A change is shown where something was written, and it shows just that. -/
theorem Records.change (h : Records field o d next) :
    (o.change? .written = none ∧ d = next ∧ o.kind.isWrite = false) ∨
      (o.change? .written = some ⟨d, next, none⟩ ∧ o.kind = writeKind d next ∧
        Change.IsAt field o.key.code ⟨d, next, none⟩) := by
  cases h with
  | nothing kind =>
    refine .inl ⟨if_neg ?_, rfl, kind⟩
    rw [kind]
    exact Bool.false_ne_true
  | written kind before after key =>
    refine .inr ⟨?_, kind, key⟩
    subst before after
    refine if_pos ?_
    rw [kind]
    exact isWrite_writeKind _ _

/-- Where each key's outcomes form a chain, the changes replay. -/
theorem replays_of_chains {os : List DocumentOutcome} {m last : Documents}
    (h : ∀ code, Chain field (m code) (os.filter (hasKey code)) (last code)) :
    Replays field m (os.filterMap (Outcome.change? .written)) last := by
  induction os generalizing m with
  | nil =>
    have same : m = last := by
      funext code
      generalize hd : m code = d
      have chain := h code
      rw [hd] at chain
      cases chain
      rfl
    exact same ▸ .nil m
  | cons o os ih =>
    have own := h o.key.code
    rw [List.filter_cons_of_pos (by exact beq_self_eq_true _)] at own
    obtain ⟨next, head, tail⟩ : ∃ next, Records field o (m o.key.code) next ∧
        Chain field next (os.filter (hasKey o.key.code)) (last o.key.code) := by
      cases own with
      | cons head tail => exact ⟨_, head, tail⟩
    -- The other keys have their chains among the rest.
    have others : ∀ code, Chain field (Function.update m o.key.code next code)
        (os.filter (hasKey code)) (last code) := by
      intro code
      by_cases hc : code = o.key.code
      · subst hc
        rw [Function.update_self]
        exact tail
      · rw [Function.update_of_ne hc]
        have rest := h code
        rw [List.filter_cons_of_neg (by simpa [hasKey] using Ne.symm hc)] at rest
        exact rest
    rcases head.change with ⟨hidden, same, -⟩ | ⟨shown, -, key⟩
    · rw [List.filterMap_cons_none hidden]
      rw [← same, Function.update_eq_self] at others
      exact ih others
    · rw [List.filterMap_cons_some shown]
      exact .cons key rfl (ih others)

/-- Changes of a form are counted by the outcomes of a kind. -/
theorem countP_changes {os : List DocumentOutcome} {before after : Bool} (kind : OutcomeKind)
    (records : ∀ o ∈ os, ∃ d next, Records field o d next) (write : kind.isWrite = true)
    (form : ∀ d next : Option Document, (d ≠ none ∨ next ≠ none) →
      ((d.isSome == before && next.isSome == after) = true ↔ writeKind d next = kind)) :
    (os.filterMap (Outcome.change? .written)).countP (Change.isForm before after) =
      os.countP fun o => o.kind = kind := by
  rw [List.countP_filterMap]
  refine List.countP_congr fun o ho => ?_
  obtain ⟨d, next, h⟩ := records o ho
  rcases h.change with ⟨hidden, -, read⟩ | ⟨shown, hkind, key⟩
  · rw [hidden]
    refine ⟨fun h => (nomatch h), fun h => ?_⟩
    rw [of_decide_eq_true h, write] at read
    cases read
  · rw [shown, hkind, decide_eq_true_eq]
    exact form d next key.present

/-! ## From landings to changes -/

variable {setup : Setup} {request : Request} {tasks : List Task} {db last : Database}
variable {os : List DocumentOutcome}

/-- The outcome says what became of the document. -/
theorem Landed.records {task : Task} {after : Database}
    (h : Landed setup request task db o after) (ho : IsOutcomeOf task o) (hdb : db.InOrder)
    (hf : db.keyField? request.table = some request.keyField) :
    Records request.keyField o (db.find? request.table o.key.code)
      (after.find? request.table o.key.code) := by
  rw [ho.key]
  have found : ∀ old ∈ db.find? request.table task.key.code,
      old.IsKeyed request.keyField o.key.code := by
    rw [ho.key]
    exact fun old hold => hdb.isKeyed_of_find? hf hold
  cases h with
  | kept kind => exact .nothing _ kind
  | wrote d kind before after keyed =>
    rw [Database.find?_write_self]
    refine .written kind before after ⟨.inr (Option.some_ne_none d), found, ?_⟩
    rintro _ ⟨⟩
    rw [ho.key]
    exact keyed
  | removed old kind present before after =>
    rw [Database.find?_remove_self]
    refine .written kind (before.trans present.symm) after ⟨.inl ?_, found, fun _ h => nomatch h⟩
    rw [present]
    exact Option.some_ne_none old

theorem LandedAll.filter (h : LandedAll setup request tasks db os last) {p : Row → Bool}
    (hp : ∀ o ∈ os, o.kind.isWrite = true → ∀ r, r.isAt request.table o.key.code = true →
      p r = false) : last.rows.filter p = db.rows.filter p := by
  induction h with
  | nil db => rfl
  | cons outcome landed _ ih =>
    rw [ih fun o ho => hp o (List.mem_cons_of_mem _ ho)]
    refine landed.filter ?_
    rw [← outcome.key]
    exact hp _ List.mem_cons_self

/-- The outcomes of each key, in the order of processing, form a chain. -/
theorem LandedAll.chain (h : LandedAll setup request tasks db os last) (hdb : db.InOrder)
    (hf : db.keyField? request.table = some request.keyField) (code : String) :
    Chain request.keyField (db.find? request.table code) (os.filter (hasKey code))
      (last.find? request.table code) := by
  induction h with
  | nil db => exact .nil _
  | @cons task tasks o os db next last outcome landed rest ih =>
    have tail := ih (landed.inOrder hdb hf) ((landed.keyField? _).trans hf)
    by_cases hc : code = o.key.code
    · subst hc
      rw [List.filter_cons_of_pos (by exact beq_self_eq_true _)]
      exact .cons (landed.records outcome hdb hf) tail
    · rw [List.filter_cons_of_neg (by simpa [hasKey] using Ne.symm hc)]
      rw [landed.find?_of_ne (outcome.key ▸ hc)] at tail
      exact tail

theorem LandedAll.records (h : LandedAll setup request tasks db os last) (hdb : db.InOrder)
    (hf : db.keyField? request.table = some request.keyField) :
    ∀ o ∈ os, ∃ d next, Records request.keyField o d next := by
  intro o ho
  have mem : ∀ {d next : Option Document} {os : List DocumentOutcome},
      Chain request.keyField d os next → o ∈ os → ∃ d next, Records request.keyField o d next := by
    intro d next os chain ho
    induction chain with
    | nil d => cases ho
    | cons head _ ih =>
      rcases List.mem_cons.1 ho with rfl | ho
      · exact ⟨_, _, head⟩
      · exact ih ho
  refine mem (h.chain hdb hf o.key.code) (List.mem_filter.2 ⟨ho, ?_⟩)
  exact beq_self_eq_true _

/-- The outcomes of one key have their places in ascending order. -/
theorem pairwise_index {start : Nat} (planned : Planned start tasks)
    (h : List.Forall₂ IsOutcomeOf (Writer.inTurn tasks) os) (code : String) :
    (os.filter (hasKey code)).Pairwise fun a b => a.index ≤ b.index := by
  have places : (os.filter (hasKey code)).map Outcome.index =
      ((Writer.inTurn tasks).filter (Writer.hasCode code)).map Task.index := by
    generalize Writer.inTurn tasks = turn at h ⊢
    induction h with
    | nil => rfl
    | @cons task o tasks os outcome _ ih =>
      have same : hasKey code o = Writer.hasCode code task := by
        unfold hasKey Writer.hasCode
        rw [outcome.key]
      rw [List.filter_cons, List.filter_cons, same]
      split
      · rw [List.map_cons, List.map_cons, ih, outcome.index]
      · exact ih
  have ascending : (tasks.map Task.index).Pairwise (· ≤ ·) := by
    rw [planned.places]
    exact List.pairwise_le_range'
  rw [← List.pairwise_map (R := (· ≤ ·)), places, Writer.filter_inTurn]
  exact ascending.sublist (List.filter_sublist.map Task.index)

/-! ## The report of a request -/

namespace Writer

theorem returnChanges_of_optionsOf {conflict durability returnChanges : Term} {options : Options}
    (h : optionsOf conflict durability returnChanges = .ok options) :
    options.returnChanges = returnChanges := by
  unfold optionsOf at h
  split at h
  · rename_i made
    cases h
    unfold Options.ofTerms at made
    obtain ⟨d, -, made⟩ := exists_of_bind_ok made
    split at made
    · cases made
    · obtain ⟨policy, -, made⟩ := exists_of_bind_ok made
      cases made
      rfl
  · cases h

/-- The report of an insert, update or delete that asks for changes is a faithful log: replayed on
the documents of the table its changes give the documents that are there afterwards, they are
counted by their forms, and every row that they do not mention keeps its document and its place. -/
theorem report_replays {c : Console} (hc : c.Reachable) {setup : Setup} (hp : 0 < setup.pageSize)
    {selector : Selector Term} {mutation : Mutation Term} {conflict durability : Term}
    {report : WriteReport} {t : StoreState}
    (h : (submit (.selector selector) (.mutation mutation) conflict durability (.bool true)).exec
      setup c.state = (.ok report, t)) :
    ∃ field changes, c.state.database.keyField? selector.tableName = some field ∧
      report.changes = some changes ∧
      Replays field (c.state.database.find? selector.tableName) changes
        (t.database.find? selector.tableName) ∧
      changes.countP (Change.isForm false true) = report.inserted ∧
      changes.countP (Change.isForm true true) = report.replaced ∧
      changes.countP (Change.isForm true false) = report.deleted ∧
      ∀ p : Row → Bool,
        (∀ r, p r = true → r.table = selector.tableName →
          ∀ change ∈ changes, ¬ change.IsAt field r.code) →
        t.database.rows.filter p = c.state.database.rows.filter p := by
  have sound := hc.sound
  have ended := submit_ends hp sound.rows (.selector selector) (.mutation mutation) conflict
    durability (.bool true)
  rw [Ensures, h] at ended
  obtain ⟨_, _, options, ⟨⟩, ⟨⟩, ho, request, tasks, os, plans, landed, rfl⟩ | ⟨f, hf, -⟩ := ended
  swap
  · cases hf
  have detail : options.detail = .written := by
    rw [Options.detail, returnChanges_of_optionsOf ho]
    rfl
  have hf := plans.field
  have records := landed.records sound.rows hf
  have ordered : ∀ o ∈ inOrder os, ∃ d next, Records request.keyField o d next :=
    fun o ho => records o ((inOrder_perm os).subset ho)
  have shows : ChangeDetail.written ≠ .hidden := by decide
  have changes := Report.changes_ofOutcomes shows (inOrder os)
  rw [detail, ← plans.table]
  refine ⟨request.keyField, _, hf, changes, ?_, ?_, ?_, ?_, ?_⟩
  · -- Outcomes of one key are reported in the order in which they came about.
    refine replays_of_chains fun code => ?_
    rw [filter_inOrder (pairwise_index plans.planned landed.outcomes code)]
    exact landed.chain sound.rows hf code
  · rw [countP_changes .inserted ordered rfl (by rintro (_ | d) (_ | n) <;> simp [writeKind])]
    exact (Report.tally_ofOutcomes _ .inserted).symm
  · rw [countP_changes .replaced ordered rfl (by rintro (_ | d) (_ | n) <;> simp [writeKind])]
    exact (Report.tally_ofOutcomes _ .replaced).symm
  · rw [countP_changes .deleted ordered rfl (by rintro (_ | d) (_ | n) <;> simp [writeKind])]
    exact (Report.tally_ofOutcomes _ .deleted).symm
  · intro p hp
    refine landed.filter fun o ho hw r hat => ?_
    obtain ⟨htable, hcode⟩ := (Database.isAt_iff r _ _).1 hat
    -- What was written is mentioned.
    obtain ⟨d, next, h⟩ := records o ho
    rcases h.change with ⟨-, -, read⟩ | ⟨shown, -, key⟩
    · rw [hw] at read
      cases read
    · refine Bool.eq_false_iff.2 fun hpr => hp r hpr htable _ ?_ (hcode ▸ key)
      exact List.mem_filterMap.2 ⟨o, (inOrder_perm os).symm.subset ho, shown⟩

/-- An insert that replaces a document of a small store is a change of one document for another. -/
theorem report_replays_people :
    ∃ report t, (submit (.selector (.table "people"))
        (.mutation (.insert (person (.int 1) "amy"))) (.text "replace") (.text "hard")
        (.bool true)).exec .echo Console.people.state = (.ok report, t) ∧
      ∃ changes, report.changes = some changes ∧
        changes.countP (Change.isForm true true) = report.replaced ∧ report.replaced = 1 := by
  have replaced : (match (submit (.selector (.table "people"))
      (.mutation (.insert (person (.int 1) "amy"))) (.text "replace") (.text "hard")
      (.bool true)).exec .echo Console.people.state with
    | (.ok report, _) => report.replaced
    | (.error _, _) => 0) = 1 := by decide +kernel
  generalize h : (submit _ _ _ _ _).exec .echo Console.people.state = ended at replaced
  obtain ⟨f | report, t⟩ := ended
  · cases replaced
  · obtain ⟨-, changes, -, hc, -, -, count, -⟩ :=
      report_replays Console.reachable_people (by decide) h
    exact ⟨report, t, rfl, changes, hc, count, replaced⟩

end Writer

end Folio
