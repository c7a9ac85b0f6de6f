import Folio.Proofs.Acceptance
import Folio.Proofs.Reachability
import Mathlib.Data.Finset.Card
/-!
# All or nothing

A request that is malformed, or that the database does not let be planned, leaves every row as it
was: such failures come up while the targets are listed, and once documents are processed nothing
turns into one of them again, but what a policy of the caller's own refuses with. A request that
comes to a report has counted every target that was listed at the start.
-/

namespace Folio

open Run StoreState

namespace ErrorKind

/-- Requests that are malformed, or about a table that does not exist. -/
def IsStructural (kind : ErrorKind) : Prop := kind = .structural ∨ kind = .tableNotFound

/-- Failures of the database, and locks that cannot be had in time. -/
def IsTransport (kind : ErrorKind) : Prop := kind = .transport ∨ kind = .lockTimeout

theorem IsTransport.isDocumentWrite {kind : ErrorKind} (h : kind.IsTransport) :
    kind.isDocumentWrite = true := by
  rcases h with rfl | rfl <;> rfl

end ErrorKind

/-! ## The number of targets -/

namespace Target

/-- The number of documents that a selector selects in a state. -/
def count (setup : Setup) (s : StoreState) : Selector Term → Nat
  | .get _ _ => 1
  | .getAll table keys =>
    ((codes keys).toFinset.filter fun code => (s.database.find? table code).isSome = true).card
  | .filter table predicate =>
    (Scan.matching setup predicate s.calls (rowsOf s.database table)).length
  | .table table => (rowsOf s.database table).length

/-- The number of targets of a request in a state. -/
def size (setup : Setup) (s : StoreState) (selector : Selector Term) : Mutation Term → Nat
  | .insert payload => payloadSize payload
  | .update _ => count setup s selector
  | .delete => count setup s selector

variable {setup : Setup} {s : StoreState} {selector : Selector Term}

/-- Codes that occur once are counted as a set. -/
theorem Present.length {db : Database} {table : String} {terms : List Term} {keys : List Value}
    (h : Present db table [] terms keys) : keys.length =
      ((codes terms).toFinset.filter fun code => (db.find? table code).isSome = true).card := by
  rw [← List.length_map Value.code, ← List.toFinset_card_of_nodup h.nodup]
  refine congrArg Finset.card (Finset.ext fun code => ?_)
  rw [List.mem_toFinset, h.mem, Finset.mem_filter, List.mem_toFinset]
  constructor
  · rintro ⟨listed, -, present⟩
    exact ⟨listed, present⟩
  · rintro ⟨listed, present⟩
    exact ⟨listed, List.not_mem_nil, present⟩

theorem Selected.length {field : String} {keys : List Value}
    (h : Selected setup s.database s.calls field selector keys) :
    keys.length = count setup s selector := by
  cases selector with
  | get table term =>
    obtain ⟨key, -, rfl⟩ := h
    rfl
  | getAll table terms => exact Present.length h
  | filter table predicate => exact (List.Forall₂.length_eq h).symm
  | table table => exact (List.Forall₂.length_eq h).symm

theorem Lists.length {field : String} {mutation : Mutation Term} {tasks : List Task}
    (h : Lists setup s.database s.calls field selector mutation tasks) :
    tasks.length = size setup s selector mutation := by
  cases mutation with
  | insert payload => exact h
  | update patch =>
    obtain ⟨keys, selected, rfl⟩ := h
    rw [length_tasksOn, selected.length]
    rfl
  | delete =>
    obtain ⟨keys, selected, rfl⟩ := h
    rw [length_tasksOn, selected.length]
    rfl

end Target

/-! ## Requests -/

namespace Writer

/-- As long as only the database fails, a request that fails as malformed or for the database
leaves every row of every table as it was, unless it inserts by a policy of the caller's own and the
failure is one that this policy refuses a document with. A request that comes to a report has
counted every target of the state at the start. -/
theorem submit_whole {c : Console} (hc : c.Reachable) {setup : Setup} (hp : 0 < setup.pageSize)
    (faults : ∀ fault ∈ c.state.faults, fault.kind.isDatabase = true)
    (selector mutation conflict durability returnChanges : Term) :
    (∀ f t, (submit selector mutation conflict durability returnChanges).exec setup c.state =
        (.error f, t) →
      f.kind.IsStructural ∨ f.kind.IsTransport →
        t.database.rows = c.state.database.rows ∨
          ∃ policy identity, conflict = .ownPolicy policy identity ∧
            f.OfPolicy setup (.own policy)) ∧
    ∀ report t, (submit selector mutation conflict durability returnChanges).exec setup c.state =
        (.ok report, t) →
      ∃ sel m, selector = .selector sel ∧ mutation = .mutation m ∧
        report.total = Target.size setup c.state sel m := by
  have ended := submit_ends hp hc.sound.rows selector mutation conflict durability returnChanges
  unfold Ensures at ended
  constructor
  · intro f t h kind
    rw [h] at ended
    rcases ended with ⟨_, _, options, -, -, given, same | ⟨_, _, _, _, -, -, -, other, arises⟩⟩ |
      ⟨_, -, same⟩
    · exact .inl (by rw [same])
    · -- Some documents were processed, so the failure is the policy's or of another kind.
      rcases arises.not_request faults with refused | ⟨structural, missing⟩
      · refine .inr ?_
        obtain ⟨policy, calls, arguments, own, rejects⟩ := refused
        obtain ⟨-, -, asked, -⟩ := optionsOf_eq_ok.1 given
        rw [own] at asked
        cases asked with
        | own _ identity => exact ⟨policy, identity, rfl, policy, calls, arguments, rfl, rejects⟩
      · rcases kind with (malformed | absent) | transport
        · exact absurd malformed structural
        · exact absurd absent missing
        · rw [transport.isDocumentWrite] at other
          cases other
    · exact .inl (by rw [same])
  · intro report t h
    rw [h] at ended
    obtain ⟨sel, m, options, rfl, rfl, -, request, tasks, os, plans, landed, rfl⟩ | ⟨_, h, -⟩ :=
      ended
    · refine ⟨sel, m, rfl, rfl, ?_⟩
      calc (Report.ofOutcomes options.detail (inOrder os)).total
        _ = os.length := total_inOrder _ os
        _ = (inTurn tasks).length := landed.outcomes.length_eq.symm
        _ = tasks.length := (inTurn_perm tasks).length_eq
        _ = Target.size setup c.state sel m := plans.lists.length
    · cases h

/-- A small store whose database fetches no document. -/
def unfetched : Console :=
  (Console.people.step .echo
    (.command (.addFault ⟨.fetch, none, fun _ => true, .database, "disk", false⟩))).2

theorem reachable_unfetched : unfetched.Reachable :=
  .step Console.reachable_people (by decide) Setup.isSettled_echo trivial

/-- Where no document is fetched, a deletion of listed keys fails as a whole, and an insert of one
document counts it. -/
theorem submit_whole_unfetched :
    (∃ f t, (submit (.selector (.getAll "people" [.int 1, .int 2])) (.mutation .delete)
        (.text "error") (.text "hard") (.bool false)).exec .echo unfetched.state = (.error f, t) ∧
      f.kind.IsTransport ∧ t.database.rows = unfetched.state.database.rows) ∧
    ∃ report t, (submit (.selector (.table "people")) (.mutation (.insert (person (.int 3) "ida")))
        (.text "error") (.text "hard") (.bool false)).exec .echo unfetched.state = (.ok report, t) ∧
      report.total = 1 := by
  have whole := @submit_whole unfetched reachable_unfetched .echo (by decide) (by decide +kernel)
  constructor
  · have failed : (match (submit (.selector (.getAll "people" [.int 1, .int 2])) (.mutation .delete)
        (.text "error") (.text "hard") (.bool false)).exec .echo unfetched.state with
      | (.error f, _) => decide (f.kind = .transport)
      | (.ok _, _) => false) = true := by decide +kernel
    generalize h : (submit _ _ _ _ _).exec .echo unfetched.state = ended at failed ⊢
    obtain ⟨f | report, t⟩ := ended
    · have transport : f.kind.IsTransport := .inl (of_decide_eq_true failed)
      obtain same | ⟨_, _, own, -⟩ := (whole _ _ _ _ _).1 f t h (.inr transport)
      · exact ⟨f, t, rfl, transport, same⟩
      · cases own
    · cases failed
  · have done : (match (submit (.selector (.table "people"))
        (.mutation (.insert (person (.int 3) "ida"))) (.text "error") (.text "hard")
        (.bool false)).exec .echo unfetched.state with
      | (.error _, _) => false
      | (.ok _, _) => true) = true := by decide +kernel
    generalize h : (submit _ _ _ _ _).exec .echo unfetched.state = ended at done ⊢
    obtain ⟨f | report, t⟩ := ended
    · cases done
    · obtain ⟨_, _, ⟨⟩, ⟨⟩, total⟩ := (whole _ _ _ _ _).2 report t h
      exact ⟨report, t, rfl, total⟩

/-- A setup whose policy finds every stored document malformed. -/
def strict : Setup where
  config := Setup.echo.config
  pageSize := 2
  functions := fun _ f arguments =>
    if f.name = "Strict" then .error (.malformed (.unsupported "_Remove" "tags"))
    else .ok (arguments.getLast?.getD .null)
  freshKey := Setup.echo.freshKey

/-- A batch of a new document and one whose key is taken. -/
def halfNew : Term := .list [person (.int 3) "ida", person (.int 1) "amy"]

/-- A policy of the caller's own that finds the second document of a batch malformed makes the
whole request fail as malformed, with the first document inserted. -/
theorem not_submit_whole_strict :
    Console.people.Reachable ∧ Console.people.state.faults = [] ∧ ∃ f t,
      (submit (.selector (.table "people")) (.mutation (.insert halfNew))
        (.ownPolicy ⟨0, "Strict"⟩ 0) (.text "hard") (.bool false)).exec strict
          Console.people.state = (.error f, t) ∧
      f.kind.IsStructural ∧ t.database.rows ≠ Console.people.state.database.rows := by
  have refused : (match (submit (.selector (.table "people")) (.mutation (.insert halfNew))
      (.ownPolicy ⟨0, "Strict"⟩ 0) (.text "hard") (.bool false)).exec strict
        Console.people.state with
    | (.error f, t) => decide (f.kind = .structural ∧
        t.database.rows.length ≠ Console.people.state.database.rows.length)
    | (.ok _, _) => false) = true := by decide +kernel
  refine ⟨Console.reachable_people, Console.faults_people, ?_⟩
  generalize (submit _ _ _ _ _).exec strict _ = ended at refused ⊢
  obtain ⟨f | report, t⟩ := ended
  · obtain ⟨structural, grown⟩ := of_decide_eq_true refused
    exact ⟨f, t, rfl, .inl structural, fun same => grown (by rw [same])⟩
  · cases refused

end Writer

end Folio
