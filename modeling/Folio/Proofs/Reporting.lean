import Folio.Report
import Mathlib.Data.List.Forall2
/-!
# What a report says of outcomes

A report is folded from outcomes one by one. Seen as a whole, it counts the outcomes of each kind,
it counts every outcome once, and its changes are those of the outcomes, in their order. Reports can
be put together, and a report on many outcomes is put together from a report on each of them; the
places of the outcomes do not matter for it.
-/

namespace Folio

variable {κ δ : Type} {detail : ChangeDetail}

namespace Report

/-- The counter of a kind of outcome. -/
def tally (r : Report κ δ) : OutcomeKind → Nat
  | .inserted => r.inserted
  | .replaced => r.replaced
  | .unchanged => r.unchanged
  | .skipped => r.skipped
  | .deleted => r.deleted
  | .error => r.errors

theorem tally_add (r : Report κ δ) (o : Outcome κ δ) (kind : OutcomeKind) :
    (r.add detail o).tally kind = r.tally kind + if o.kind = kind then 1 else 0 := by
  cases h : o.kind <;> cases kind <;> simp [add, count, tally, h]

theorem changes_add (r : Report κ δ) (o : Outcome κ δ) :
    (r.add detail o).changes = r.changes.map (· ++ (o.change? detail).toList) := by
  cases h : o.kind <;> simp [add, count, h]

theorem tally_foldl (outcomes : List (Outcome κ δ)) (r : Report κ δ) (kind : OutcomeKind) :
    (outcomes.foldl (add detail) r).tally kind =
      r.tally kind + outcomes.countP fun o => o.kind = kind := by
  induction outcomes generalizing r with
  | nil => rfl
  | cons o rest ih =>
    rw [List.foldl_cons, ih, tally_add, List.countP_cons]
    simp only [decide_eq_true_eq]
    omega

theorem changes_foldl (outcomes : List (Outcome κ δ)) (r : Report κ δ) :
    (outcomes.foldl (add detail) r).changes =
      r.changes.map (· ++ outcomes.filterMap (Outcome.change? detail)) := by
  induction outcomes generalizing r with
  | nil => simp
  | cons o rest ih =>
    rw [List.foldl_cons, ih, changes_add, Option.map_map]
    congr 1
    funext changes
    cases h : o.change? detail <;> simp [h]

/-- Each counter counts the outcomes of its kind. -/
theorem tally_ofOutcomes (outcomes : List (Outcome κ δ)) (kind : OutcomeKind) :
    (ofOutcomes detail outcomes).tally kind = outcomes.countP fun o => o.kind = kind := by
  rw [ofOutcomes, tally_foldl]
  cases kind <;> exact Nat.zero_add _

/-- The changes are those of the outcomes, if there are to be any. -/
theorem changes_ofOutcomes (h : detail ≠ .hidden) (outcomes : List (Outcome κ δ)) :
    (ofOutcomes detail outcomes).changes =
      some (outcomes.filterMap (Outcome.change? detail)) := by
  rw [ofOutcomes, changes_foldl]
  simp [empty, h]

theorem total_add (r : Report κ δ) (o : Outcome κ δ) : (r.add detail o).total = r.total + 1 := by
  cases h : o.kind <;> simp only [add, count, total, h] <;> omega

/-- Every outcome is counted once. -/
theorem total_ofOutcomes (outcomes : List (Outcome κ δ)) :
    (ofOutcomes detail outcomes).total = outcomes.length := by
  have total : ∀ r : Report κ δ,
      (outcomes.foldl (add detail) r).total = r.total + outcomes.length := by
    induction outcomes with
    | nil => exact fun _ => rfl
    | cons o rest ih =>
      intro r
      rw [List.foldl_cons, ih, total_add, List.length_cons]
      omega
  rw [ofOutcomes, total]
  exact Nat.zero_add _

/-- The generated keys are those of the inserted outcomes that have one, in their order. -/
theorem generatedKeys_ofOutcomes (detail : ChangeDetail) (os : List (Outcome κ δ)) :
    (ofOutcomes detail os).generatedKeys =
      (os.filter fun o => o.kind = .inserted && o.generated).map Outcome.key := by
  have run : ∀ r : Report κ δ, (os.foldl (add detail) r).generatedKeys =
      r.generatedKeys ++ (os.filter fun o => o.kind = .inserted && o.generated).map Outcome.key := by
    induction os with
    | nil => exact fun r => (List.append_nil _).symm
    | cons o os ih =>
      intro r
      rw [List.foldl_cons, ih, List.filter_cons, add]
      dsimp only
      split
      · rw [List.append_assoc]
        rfl
      · rfl
  exact run (empty detail)

/-- The first failure is that of the first outcome that failed. -/
theorem firstError_ofOutcomes (os : List (Outcome κ δ)) :
    (ofOutcomes detail os).firstError =
      os.findSome? fun o => if o.kind = .error then some o.errorText else none := by
  have run : ∀ r : Report κ δ, (os.foldl (add detail) r).firstError = r.firstError.or
      (os.findSome? fun o => if o.kind = .error then some o.errorText else none) := by
    induction os with
    | nil => exact fun r => Option.or_none.symm
    | cons o os ih =>
      intro r
      rw [List.foldl_cons, ih, List.findSome?_cons]
      cases hk : o.kind <;> cases hr : r.firstError <;> simp [add, count, hk, hr]
  rw [ofOutcomes, run]
  rfl

/-! ## Reports put together -/

/-- Two reports as one: counters are added, lists put one after the other, and the first failure is
kept. -/
def combine (a b : Report κ δ) : Report κ δ where
  inserted := a.inserted + b.inserted
  replaced := a.replaced + b.replaced
  unchanged := a.unchanged + b.unchanged
  skipped := a.skipped + b.skipped
  deleted := a.deleted + b.deleted
  errors := a.errors + b.errors
  generatedKeys := a.generatedKeys ++ b.generatedKeys
  changes := a.changes.bind fun changes => b.changes.map (changes ++ ·)
  firstError := a.firstError.or b.firstError

/-- The reports on some requests as one. -/
def combineAll (detail : ChangeDetail) (reports : List (Report κ δ)) : Report κ δ :=
  reports.foldl combine (empty detail)

theorem add_combine (a b : Report κ δ) (o : Outcome κ δ) :
    (a.combine b).add detail o = a.combine (b.add detail o) := by
  have changes : ((a.combine b).add detail o).changes = (a.combine (b.add detail o)).changes := by
    rw [changes_add]
    simp only [combine, changes_add]
    cases a.changes <;> cases b.changes <;> simp
  have keys : ((a.combine b).add detail o).generatedKeys =
      (a.combine (b.add detail o)).generatedKeys := by
    cases hk : o.kind <;> cases hg : o.generated <;> simp [add, combine, hk, hg]
  cases hk : o.kind <;>
    simp_all [add, count, combine, Nat.add_assoc]

theorem foldl_combine (a b : Report κ δ) (os : List (Outcome κ δ)) :
    os.foldl (add detail) (a.combine b) = a.combine (os.foldl (add detail) b) := by
  induction os generalizing b with
  | nil => rfl
  | cons o os ih => rw [List.foldl_cons, List.foldl_cons, add_combine, ih]

theorem combine_empty {r : Report κ δ} (h : r.changes.isSome = decide (detail ≠ .hidden)) :
    r.combine (empty detail) = r := by
  obtain ⟨inserted, replaced, unchanged, skipped, deleted, errors, keys, changes, first⟩ := r
  cases changes <;> by_cases hd : detail = .hidden <;> simp_all [combine, empty]

theorem isSome_changes_ofOutcomes (os : List (Outcome κ δ)) :
    (ofOutcomes detail os).changes.isSome = decide (detail ≠ .hidden) := by
  rw [ofOutcomes, changes_foldl]
  by_cases hd : detail = .hidden <;> simp [empty, hd]

theorem ofOutcomes_append (os more : List (Outcome κ δ)) :
    ofOutcomes detail (os ++ more) = (ofOutcomes detail os).combine (ofOutcomes detail more) := by
  calc ofOutcomes detail (os ++ more)
    _ = more.foldl (add detail) ((ofOutcomes detail os).combine (empty detail)) := by
      rw [combine_empty (isSome_changes_ofOutcomes os), ofOutcomes, List.foldl_append]
      rfl
    _ = (ofOutcomes detail os).combine (ofOutcomes detail more) := foldl_combine _ _ _

/-- A report is put together from a report on each outcome. -/
theorem combineAll_singletons (os : List (Outcome κ δ)) :
    combineAll detail (os.map fun o => ofOutcomes detail [o]) = ofOutcomes detail os := by
  have run : ∀ done : List (Outcome κ δ),
      (os.map fun o => ofOutcomes detail [o]).foldl combine (ofOutcomes detail done) =
        ofOutcomes detail (done ++ os) := by
    induction os with
    | nil => simp
    | cons o os ih =>
      intro done
      rw [List.map_cons, List.foldl_cons, ← ofOutcomes_append, ih, List.append_assoc]
      rfl
  exact run []

/-- A report does not say in which places the outcomes are. -/
theorem ofOutcomes_congr {os others : List (Outcome κ δ)}
    (h : List.Forall₂ (fun o other => ∃ place, other = { o with index := place }) os others) :
    ofOutcomes detail others = ofOutcomes detail os := by
  have run : ∀ r : Report κ δ,
      others.foldl (add detail) r = os.foldl (add detail) r := by
    induction h with
    | nil => exact fun _ => rfl
    | cons place _ ih =>
      obtain ⟨place, rfl⟩ := place
      exact fun r => ih _
  exact run _

end Report

end Folio
