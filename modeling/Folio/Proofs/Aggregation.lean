import Folio.Proofs.Acceptance
/-!
# What a report adds up to

The report on a list of outcomes is told by the list: how many outcomes there are of each kind, which
keys were generated, what failed first, and which changes are shown. What is asked for decides about
the changes only, and a report on one list after another is put together from the reports on both.
-/

namespace Folio

variable {κ δ : Type}

/-- How an outcome is shown where all of them are: a write with the document before and after it,
and everything else with the document that is kept, and with the message if it failed. -/
inductive Outcome.IsShownAs : Outcome κ δ → Change δ → Prop
  | written {o : Outcome κ δ} (kind : o.kind = .inserted ∨ o.kind = .replaced ∨ o.kind = .deleted) :
    IsShownAs o ⟨o.before, o.after, none⟩
  | kept {o : Outcome κ δ} (kind : o.kind = .unchanged ∨ o.kind = .skipped) :
    IsShownAs o ⟨o.before, o.before, none⟩
  | failed {o : Outcome κ δ} (kind : o.kind = .error) :
    IsShownAs o ⟨o.before, o.before, some o.errorText⟩

namespace Report

/-- A report without its changes. -/
def withoutChanges (r : Report κ δ) : Report κ δ := { r with changes := none }

variable {detail : ChangeDetail} {key : κ → Term} {document : δ → Term}

/-! ## Named parts -/

theorem find?_firstError_toEntries (r : Report κ δ) :
    Entries.find? (r.toEntries key document) "first_error" =
      if 0 < r.errors then some (r.firstError.elim .null .text) else none := by
  by_cases failed : 0 < r.errors <;> cases h : r.changes <;>
    simp [toEntries, counters, Entries.find?_cons, failed, h]

theorem has_changes_toEntries (r : Report κ δ) :
    Entries.has (r.toEntries key document) "changes" = r.changes.isSome := by
  by_cases failed : 0 < r.errors <;> cases h : r.changes <;>
    simp [Entries.has, toEntries, counters, Entries.find?_cons, failed, h]

/-! ## What the outcomes tell -/

theorem errors_ofOutcomes (os : List (Outcome κ δ)) :
    (ofOutcomes detail os).errors = os.countP fun o => o.kind = .error :=
  tally_ofOutcomes os .error

/-- The message is that of the first outcome that failed. -/
theorem firstError_eq_find? (os : List (Outcome κ δ)) :
    (ofOutcomes detail os).firstError =
      (os.find? fun o => o.kind = .error).map Outcome.errorText := by
  rw [firstError_ofOutcomes]
  induction os with
  | nil => rfl
  | cons o os ih =>
    by_cases failed : o.kind = .error
    · simp [failed]
    · simp [failed, ih]

/-- A message is there exactly if an outcome failed. -/
theorem isSome_firstError_iff (os : List (Outcome κ δ)) :
    (ofOutcomes detail os).firstError.isSome = true ↔ 0 < (ofOutcomes detail os).errors := by
  rw [errors_ofOutcomes, firstError_eq_find?]
  simp

/-- The first failure is handed out where there is one. -/
theorem find?_toEntries_ofOutcomes (os : List (Outcome κ δ)) :
    Entries.find? ((ofOutcomes detail os).toEntries key document) "first_error" =
      (os.find? fun o => o.kind = .error).map fun o => .text o.errorText := by
  rw [find?_firstError_toEntries, ← Function.comp_def, ← Option.map_map, ← firstError_eq_find? os]
  have there := @isSome_firstError_iff _ _ detail os
  cases first : (ofOutcomes detail os).firstError with
  | none =>
    rw [first] at there
    simpa using there
  | some message =>
    rw [first] at there
    simp [there.1 rfl]

theorem changes_hidden (os : List (Outcome κ δ)) : (ofOutcomes .hidden os).changes = none := by
  simpa using @isSome_changes_ofOutcomes _ _ .hidden os

theorem changes_written (os : List (Outcome κ δ)) :
    (ofOutcomes .written os).changes =
      some ((os.filter fun o => o.kind = .inserted || o.kind = .replaced || o.kind = .deleted).map
        fun o => ⟨o.before, o.after, none⟩) := by
  rw [changes_ofOutcomes (by decide)]
  congr 1
  induction os with
  | nil => rfl
  | cons o os ih =>
    rw [List.filterMap_cons, List.filter_cons, ih]
    cases kind : o.kind <;> simp [Outcome.change?, OutcomeKind.isWrite, kind]

theorem exists_change?_always (o : Outcome κ δ) :
    ∃ change, o.change? .always = some change ∧ o.IsShownAs change := by
  cases kind : o.kind <;> simp only [Outcome.change?, OutcomeKind.isWrite, kind]
  case inserted => exact ⟨_, rfl, .written (.inl kind)⟩
  case replaced => exact ⟨_, rfl, .written (.inr (.inl kind))⟩
  case deleted => exact ⟨_, rfl, .written (.inr (.inr kind))⟩
  case unchanged => exact ⟨_, rfl, .kept (.inl kind)⟩
  case skipped => exact ⟨_, rfl, .kept (.inr kind)⟩
  case error => exact ⟨_, rfl, .failed kind⟩

theorem changes_always (os : List (Outcome κ δ)) :
    ∃ changes, (ofOutcomes .always os).changes = some changes ∧
      List.Forall₂ Outcome.IsShownAs os changes := by
  refine ⟨_, changes_ofOutcomes (by decide) os, ?_⟩
  induction os with
  | nil => exact .nil
  | cons o os ih =>
    obtain ⟨change, shown, asked⟩ := exists_change?_always o
    rw [List.filterMap_cons, shown]
    exact .cons asked ih

/-- Without its changes, a report is the one for which none are asked. -/
theorem withoutChanges_ofOutcomes (os : List (Outcome κ δ)) :
    (ofOutcomes detail os).withoutChanges = ofOutcomes .hidden os := by
  have run : ∀ r : Report κ δ, (os.foldl (add detail) r).withoutChanges =
      os.foldl (add .hidden) r.withoutChanges := by
    induction os with
    | nil => intro r; rfl
    | cons o os ih =>
      intro r
      have step : (r.add detail o).withoutChanges = r.withoutChanges.add .hidden o := by
        cases kind : o.kind <;> simp [withoutChanges, add, count, kind]
      rw [List.foldl_cons, List.foldl_cons, ih, step]
  exact run (empty detail)

/-! ## The whole report -/

/-- The report on a list of outcomes counts each of them once, and lists what the outcomes say, in
their order. Which changes are asked for decides about the changes alone, and the report on one list
after another is the reports on both put together. -/
theorem ofOutcomes_adds_up (returnChanges : Term) (os more : List (Outcome κ δ)) :
    let report := ofOutcomes (.ofOption returnChanges) os
    report.total = os.length ∧
      (∀ kind, report.tally kind = os.countP fun o => o.kind = kind) ∧
      report.generatedKeys =
        (os.filter fun o => o.kind = .inserted && o.generated).map Outcome.key ∧
      report.firstError = (os.find? fun o => o.kind = .error).map Outcome.errorText ∧
      (∀ (key : κ → Term) (document : δ → Term),
        (Entries.has (report.toEntries key document) "first_error" = true ↔ 0 < report.errors) ∧
          Entries.find? (report.toEntries key document) "first_error" =
            report.firstError.map Term.text ∧
          (Entries.has (report.toEntries key document) "changes" = true ↔
            returnChanges ≠ .bool false)) ∧
      (ofOutcomes (.ofOption (.bool true)) os).changes =
        some ((os.filter fun o =>
          o.kind = .inserted || o.kind = .replaced || o.kind = .deleted).map
            fun o => ⟨o.before, o.after, none⟩) ∧
      (∃ changes, (ofOutcomes (.ofOption (.text "always")) os).changes = some changes ∧
        List.Forall₂ Outcome.IsShownAs os changes) ∧
      (ofOutcomes (.ofOption (.bool false)) os).changes = none ∧
      ofOutcomes (.ofOption returnChanges) (os ++ more) =
        report.combine (ofOutcomes (.ofOption returnChanges) more) ∧
      ∀ other, report.withoutChanges =
        (ofOutcomes (.ofOption other) os : Report κ δ).withoutChanges := by
  intro report
  have listed : ∀ (key : κ → Term) (document : δ → Term),
      Entries.find? (report.toEntries key document) "first_error" =
        report.firstError.map Term.text := by
    intro key document
    rw [find?_toEntries_ofOutcomes, firstError_eq_find?, Option.map_map]
    rfl
  refine ⟨total_ofOutcomes os, tally_ofOutcomes os, generatedKeys_ofOutcomes _ os,
    firstError_eq_find? os, ?_, changes_written os, changes_always os,
    changes_hidden os, ofOutcomes_append os more, ?_⟩
  · intro key document
    refine ⟨?_, listed key document, ?_⟩
    · rw [Entries.has, listed, Option.isSome_map]
      exact isSome_firstError_iff os
    · rw [has_changes_toEntries, isSome_changes_ofOutcomes, decide_eq_true_iff, Ne,
        ChangeDetail.ofOption_eq_hidden]
  · intro other
    rw [withoutChanges_ofOutcomes, withoutChanges_ofOutcomes]

end Report

end Folio
