import Folio.Entries
/-!
# Metrics

What a store counts: the outcomes of documents, the requests by their status, the requests whose
duration was measured, and the locks that were acquired. Times themselves are not kept.
-/

namespace Folio

/-- A counted event. -/
inductive Sample where
  | document (table operation outcome : String)
  | mutation (table operation status : String)
  | mutationLatency (table operation : String)
  | lockLatency (table : String)
  deriving DecidableEq

/-- How often each event happened. -/
abbrev Metrics := Entries Sample Nat

namespace Sample

/-- The name of the counter. -/
def name : Sample → String
  | .document .. => "docwrite_document_writes_total"
  | .mutation .. => "docwrite_mutations_total"
  | .mutationLatency .. => "docwrite_mutation_latency_seconds_count"
  | .lockLatency _ => "docwrite_key_lock_acquire_latency_seconds_count"

/-- The labels of the counter with their values, by label. -/
def labels : Sample → List (String × String)
  | .document table operation outcome =>
    [("op_type", operation), ("outcome", outcome), ("table", table)]
  | .mutation table operation status =>
    [("op_type", operation), ("status", status), ("table", table)]
  | .mutationLatency table operation => [("op_type", operation), ("table", table)]
  | .lockLatency table => [("table", table)]

/-- What samples are sorted by: the name and then the values of the labels. -/
def sortKey (s : Sample) : List String := s.name :: s.labels.map Prod.snd

end Sample

namespace Metrics

/-- How often an event happened. -/
def count (m : Metrics) (s : Sample) : Nat := (Entries.find? m s).getD 0

/-- Counts an event. -/
def observe (m : Metrics) (s : Sample) : Metrics := Entries.put m s (count m s + 1)

/-- An event that is counted happened once more, and no other one did. -/
theorem count_observe (m : Metrics) (s other : Sample) :
    (m.observe s).count other = m.count other + if s = other then 1 else 0 := by
  unfold observe count
  by_cases h : s = other
  · subst h
    simp
  · simp [h, Entries.find?_put_of_ne]

/-- The counts, sorted by name and labels. -/
def sorted (m : Metrics) : List (Sample × Nat) :=
  m.mergeSort fun a b => !b.1.sortKey.lex a.1.sortKey fun s t => decide (s < t)

end Metrics

end Folio
