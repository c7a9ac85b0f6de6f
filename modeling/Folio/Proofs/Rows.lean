import Folio.Proofs.Keys
import Folio.Proofs.SettledDocuments
/-!
# Rows in order

The invariant of a database: each row belongs to a table that exists, its document holds the key
under whose code the row is addressed, no two rows share an address, and the rows stand in the
order of their sequence numbers. Writing a document that holds its key keeps it, and so does
whatever only takes rows away. A write touches one address and leaves every other row in its place.
-/

namespace Folio

namespace Database

/-- No two rows share an address, and the rows stand in the order of their numbers. -/
structure Ordered (db : Database) : Prop where
  distinct : db.rows.Pairwise fun r s => s.isAt r.table r.code = false
  ascending : db.rows.Pairwise fun r s => r.seq < s.seq
  positive : ∀ r ∈ db.rows, 0 < r.seq

/-- The rows stand in order, each under the code of the key that its document holds. -/
structure InOrder (db : Database) : Prop where
  keyed : ∀ r ∈ db.rows, ∃ field, db.keyField? r.table = some field ∧ r.body.IsKeyed field r.code
  distinct : db.rows.Pairwise fun r s => s.isAt r.table r.code = false
  ascending : db.rows.Pairwise fun r s => r.seq < s.seq
  positive : ∀ r ∈ db.rows, 0 < r.seq

/-- Each label of each document occurs once. -/
def IsSettled (db : Database) : Prop := ∀ r ∈ db.rows, r.body.IsSettled

variable {db : Database} {table code t c field : String} {d : Document}

theorem InOrder.ordered (h : db.InOrder) : db.Ordered := ⟨h.distinct, h.ascending, h.positive⟩

theorem isAt_comm {r s : Row} : s.isAt r.table r.code = r.isAt s.table s.code := by
  rw [Bool.eq_iff_iff, isAt_iff, isAt_iff]
  exact ⟨fun ⟨h, k⟩ => ⟨h.symm, k.symm⟩, fun ⟨h, k⟩ => ⟨h.symm, k.symm⟩⟩

/-- An address is the address of one row at most. -/
theorem Ordered.eq_of_isAt (h : db.Ordered) {r s : Row} (hr : r ∈ db.rows) (hs : s ∈ db.rows)
    (hat : s.isAt r.table r.code = true) : r = s := by
  by_contra ne
  have symm : Std.Symm fun r s : Row => s.isAt r.table r.code = false :=
    ⟨fun _ _ hxy => isAt_comm.trans hxy⟩
  have := h.distinct.forall hr hs ne
  rw [hat] at this
  cases this

theorem foldl_max_le (rows : List Row) (n : Nat) :
    n ≤ rows.foldl (fun n r => max n r.seq) n ∧
      ∀ r ∈ rows, r.seq ≤ rows.foldl (fun n r => max n r.seq) n := by
  induction rows generalizing n with
  | nil => simp
  | cons r rows ih =>
    obtain ⟨start, all⟩ := ih (max n r.seq)
    rw [List.foldl_cons]
    refine ⟨by omega, fun s hs => ?_⟩
    rcases List.mem_cons.1 hs with rfl | hs
    · omega
    · exact all s hs

theorem le_lastSeq {r : Row} (h : r ∈ db.rows) : r.seq ≤ db.lastSeq :=
  (foldl_max_le db.rows 0).2 r h

/-! ## Reading -/

theorem find?_eq_none : db.find? table code = none ↔ ∀ r ∈ db.rows, r.isAt table code = false := by
  unfold find?
  rw [Option.map_eq_none_iff, List.find?_eq_none]
  exact forall₂_congr fun r _ => Bool.not_eq_true _ ▸ Iff.rfl

theorem exists_of_find? (h : db.find? table code = some d) :
    ∃ r ∈ db.rows, r.isAt table code = true ∧ r.body = d := by
  obtain ⟨r, hr, rfl⟩ := Option.map_eq_some_iff.1 h
  exact ⟨r, List.mem_of_find?_eq_some hr, by simpa using List.find?_some hr, rfl⟩

/-- The document of a row is the one under its address. -/
theorem Ordered.find?_of_mem (h : db.Ordered) {r : Row} (hr : r ∈ db.rows) :
    db.find? r.table r.code = some r.body := by
  cases hf : db.find? r.table r.code with
  | none =>
    have := find?_eq_none.1 hf r hr
    rw [(isAt_iff r _ _).2 ⟨rfl, rfl⟩] at this
    cases this
  | some d =>
    obtain ⟨s, hs, hat, rfl⟩ := exists_of_find? hf
    rw [h.eq_of_isAt hr hs hat]

theorem InOrder.find?_of_mem (h : db.InOrder) {r : Row} (hr : r ∈ db.rows) :
    db.find? r.table r.code = some r.body := h.ordered.find?_of_mem hr

theorem IsSettled.find? (h : db.IsSettled) (hf : db.find? table code = some d) : d.IsSettled := by
  obtain ⟨r, hr, -, rfl⟩ := exists_of_find? hf
  exact h r hr

/-- The document under an address holds a key with the code of the address. -/
theorem InOrder.isKeyed_of_find? (h : db.InOrder) (ht : db.keyField? table = some field)
    (hf : db.find? table code = some d) : d.IsKeyed field code := by
  obtain ⟨r, hr, hat, rfl⟩ := exists_of_find? hf
  obtain ⟨rfl, rfl⟩ := (isAt_iff r _ _).1 hat
  obtain ⟨other, ho, hk⟩ := h.keyed r hr
  rw [ht] at ho
  cases ho
  exact hk

/-! ## Writing one document -/

/-- A row after a document was written in its place, if it is the row of the address. -/
def overwrite (table code : String) (d : Document) (r : Row) : Row :=
  if r.isAt table code then { r with body := d } else r

@[simp] theorem overwrite_seq (r : Row) : (overwrite table code d r).seq = r.seq := by
  unfold overwrite
  split <;> rfl

@[simp] theorem overwrite_isAt (r : Row) :
    (overwrite table code d r).isAt t c = r.isAt t c := by
  unfold overwrite
  split <;> rfl

@[simp] theorem overwrite_table (r : Row) : (overwrite table code d r).table = r.table := by
  unfold overwrite
  split <;> rfl

@[simp] theorem overwrite_code (r : Row) : (overwrite table code d r).code = r.code := by
  unfold overwrite
  split <;> rfl

theorem write_of_isSome (h : (db.find? table code).isSome = true) (d : Document) :
    (db.write table code d).rows = db.rows.map (overwrite table code d) := by
  obtain ⟨old, hf⟩ := Option.isSome_iff_exists.1 h
  obtain ⟨r, hr, hat, -⟩ := exists_of_find? hf
  unfold write
  rw [if_pos (List.any_eq_true.2 ⟨r, hr, hat⟩)]
  rfl

theorem write_of_eq_none (h : db.find? table code = none) (d : Document) :
    (db.write table code d).rows = db.rows ++ [⟨db.lastSeq + 1, table, code, d⟩] := by
  unfold write
  rw [if_neg]
  intro any
  obtain ⟨r, hr, hat⟩ := List.any_eq_true.1 any
  rw [find?_eq_none.1 h r hr] at hat
  cases hat

@[simp] theorem tables_write : (db.write table code d).tables = db.tables := by
  unfold write
  split <;> rfl

@[simp] theorem keyField?_write : (db.write table code d).keyField? t = db.keyField? t := by
  unfold keyField?
  rw [tables_write]

@[simp] theorem keyField?_remove : (db.remove table code).keyField? t = db.keyField? t := rfl

/-- A row after a write is a row from before, or the one that was written. -/
theorem mem_write {r : Row} (h : r ∈ (db.write table code d).rows) :
    (r.isAt table code = true ∧ r.body = d) ∨ (r ∈ db.rows ∧ r.isAt table code = false) := by
  cases hf : db.find? table code with
  | some old =>
    rw [write_of_isSome (by rw [hf]; rfl)] at h
    obtain ⟨s, hs, rfl⟩ := List.mem_map.1 h
    cases hat : s.isAt table code with
    | true => exact .inl ⟨by rw [overwrite_isAt, hat], by rw [overwrite, if_pos hat]⟩
    | false =>
      rw [overwrite, if_neg (by rw [hat]; exact Bool.false_ne_true)]
      exact .inr ⟨hs, hat⟩
  | none =>
    rw [write_of_eq_none hf] at h
    rcases List.mem_append.1 h with h | h
    · exact .inr ⟨h, find?_eq_none.1 hf r h⟩
    · rw [List.mem_singleton] at h
      subst h
      exact .inl ⟨(isAt_iff _ _ _).2 ⟨rfl, rfl⟩, rfl⟩

/-- A write leaves the rows at other addresses as they are and where they are. -/
theorem filter_write {p : Row → Bool} (hp : ∀ r, r.isAt table code = true → p r = false) :
    (db.write table code d).rows.filter p = db.rows.filter p := by
  cases hf : db.find? table code with
  | some old =>
    rw [write_of_isSome (by rw [hf]; rfl), List.filter_map]
    induction db.rows with
    | nil => rfl
    | cons r rows ih =>
      cases hat : r.isAt table code with
      | true =>
        have written : p (overwrite table code d r) = false := hp _ ((overwrite_isAt r).trans hat)
        simpa [List.filter_cons, written, hp r hat] using ih
      | false =>
        have kept : overwrite table code d r = r := by
          rw [overwrite, if_neg (by rw [hat]; exact Bool.false_ne_true)]
        cases hr : p r with
        | true => simpa [List.filter_cons, kept, hr] using ih
        | false => simpa [List.filter_cons, kept, hr] using ih
  | none =>
    have : p ⟨db.lastSeq + 1, table, code, d⟩ = false := hp _ ((isAt_iff _ _ _).2 ⟨rfl, rfl⟩)
    rw [write_of_eq_none hf, List.filter_append]
    simp [this]

theorem filter_remove {p : Row → Bool} (hp : ∀ r, r.isAt table code = true → p r = false) :
    (db.remove table code).rows.filter p = db.rows.filter p := by
  simp only [remove, List.filter_filter]
  refine List.filter_congr fun r _ => ?_
  cases hr : p r with
  | false => rfl
  | true =>
    cases hat : r.isAt table code with
    | false => rfl
    | true => rw [hp r hat] at hr; cases hr

/-- What is read at an address depends on its rows only. -/
theorem find?_eq_of_filter {other : Database} (h : other.rows.filter (fun r => r.isAt t c) =
    db.rows.filter fun r => r.isAt t c) : other.find? t c = db.find? t c := by
  unfold find?
  rw [← List.head?_filter, ← List.head?_filter, h]

/-! ## Keeping the order -/

theorem Ordered.empty : Database.empty.Ordered := by
  constructor <;> simp [Database.empty]

theorem InOrder.empty : Database.empty.InOrder := by
  constructor <;> simp [Database.empty]

/-- A written row keeps its address and its number, or it is new and has the largest number. -/
theorem Ordered.write (h : db.Ordered) (d : Document) : (db.write table code d).Ordered := by
  cases hf : db.find? table code with
  | some old =>
    have rows := write_of_isSome (by rw [hf]; rfl) d
    refine ⟨?_, ?_, ?_⟩
    · rw [rows, List.pairwise_map]
      refine h.distinct.imp fun {r s} hrs => ?_
      rw [overwrite_isAt, overwrite_table, overwrite_code]
      exact hrs
    · rw [rows, List.pairwise_map]
      refine h.ascending.imp fun {r s} hrs => ?_
      rw [overwrite_seq, overwrite_seq]
      exact hrs
    · intro r hr
      rw [rows] at hr
      obtain ⟨s, hs, rfl⟩ := List.mem_map.1 hr
      rw [overwrite_seq]
      exact h.positive s hs
  | none =>
    have rows := write_of_eq_none hf d
    refine ⟨?_, ?_, ?_⟩
    · rw [rows, List.pairwise_append]
      refine ⟨h.distinct, List.pairwise_singleton _ _, fun r hr s hs => ?_⟩
      rw [List.mem_singleton] at hs
      subst hs
      exact isAt_comm.trans (find?_eq_none.1 hf r hr)
    · rw [rows, List.pairwise_append]
      refine ⟨h.ascending, List.pairwise_singleton _ _, fun r hr s hs => ?_⟩
      rw [List.mem_singleton] at hs
      subst hs
      exact Nat.lt_succ_of_le (le_lastSeq hr)
    · intro r hr
      rw [rows] at hr
      rcases List.mem_append.1 hr with hr | hr
      · exact h.positive r hr
      · rw [List.mem_singleton] at hr
        subst hr
        exact Nat.succ_pos _

/-- Rows can be taken away, whatever the tables are. -/
theorem Ordered.filter (h : db.Ordered) (tables : Entries String String) (p : Row → Bool) :
    Ordered ⟨tables, db.rows.filter p⟩ where
  distinct := h.distinct.filter p
  ascending := h.ascending.filter p
  positive r hr := h.positive r (List.mem_filter.1 hr).1

/-- A document that holds its key is written in order. -/
theorem InOrder.write (h : db.InOrder) (ht : db.keyField? table = some field)
    (hd : d.IsKeyed field code) : (db.write table code d).InOrder := by
  obtain ⟨distinct, ascending, positive⟩ := h.ordered.write d
  refine ⟨fun r hr => ?_, distinct, ascending, positive⟩
  rw [keyField?_write]
  rcases mem_write hr with ⟨hat, rfl⟩ | ⟨hr, -⟩
  · obtain ⟨rfl, rfl⟩ := (isAt_iff r _ _).1 hat
    exact ⟨field, ht, hd⟩
  · exact h.keyed r hr

/-- Rows can be taken away, as long as the tables of the others stay. -/
theorem InOrder.filter (h : db.InOrder) {tables : Entries String String} {p : Row → Bool}
    (ht : ∀ r ∈ db.rows, p r = true → Entries.find? tables r.table = db.keyField? r.table) :
    InOrder ⟨tables, db.rows.filter p⟩ where
  keyed r hr := by
    obtain ⟨hr, hp⟩ := List.mem_filter.1 hr
    obtain ⟨field, hf, hk⟩ := h.keyed r hr
    exact ⟨field, (ht r hr hp).trans hf, hk⟩
  distinct := h.distinct.filter p
  ascending := h.ascending.filter p
  positive := (h.ordered.filter tables p).positive

theorem InOrder.remove (h : db.InOrder) : (db.remove table code).InOrder :=
  h.filter fun _ _ _ => rfl

theorem InOrder.removeTable (h : db.InOrder) : (db.removeTable table).InOrder := by
  refine h.filter fun r _ hr => Entries.find?_erase_of_ne db.tables fun ht => ?_
  rw [ht, bne_self_eq_false] at hr
  cases hr

/-- A new table has no rows yet. -/
theorem InOrder.addTable {other : Database} (h : db.InOrder)
    (ha : db.addTable? table field = some other) : other.InOrder := by
  unfold addTable? at ha
  split at ha
  · cases ha
  · cases ha
    refine ⟨fun r hr => ?_, h.distinct, h.ascending, h.positive⟩
    obtain ⟨field, hf, hk⟩ := h.keyed r hr
    exact ⟨field, Entries.find?_append_of_some hf, hk⟩

theorem IsSettled.write (h : db.IsSettled) (hd : d.IsSettled) :
    (db.write table code d).IsSettled := by
  intro r hr
  rcases mem_write hr with ⟨-, rfl⟩ | ⟨hr, -⟩
  · exact hd
  · exact h r hr

end Database

end Folio
