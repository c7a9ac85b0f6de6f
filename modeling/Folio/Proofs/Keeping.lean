import Folio.Proofs.Courses
import Folio.Proofs.OrderedMap
import Folio.Proofs.Planning
/-!
# Databases that keep a catalog

A database keeps a catalog if the rows of each table, in the order of their numbers, keep the
entries of its listing place by place. The numbers themselves do not matter, nor that tables share
them, nor that the largest one is used again after its row was removed: writing finds its row by the
code of the key, which keys have in common exactly if their values are the same, and a new row comes
last. What changes one table spares the rows of the others.
-/

namespace Folio

variable {db next : Database} {m : Catalog} {table : String} {key : Address} {shelf : Shelf}

/-! ## Rows and listings -/

/-- A row of a table keeps an entry of its listing. -/
structure Row.Keeps (table : String) (r : Row) (e : Address × Document) : Prop where
  table : r.table = table
  code : r.code = e.1.value.code
  body : r.body = e.2

theorem Row.Keeps.beq {r : Row} {e : Address × Document} (h : r.Keeps table e) (key : Address) :
    (e.1 == key) = true ↔ r.code = key.value.code := by
  rw [Address.beq_iff, h.code]

theorem Row.Keeps.isAt {r : Row} {e : Address × Document} (h : r.Keeps table e) (key : Address) :
    r.isAt table key.value.code = (e.1 == key) := by
  rw [Bool.eq_iff_iff, Database.isAt_iff, h.beq key]
  exact ⟨And.right, fun code => ⟨h.table, code⟩⟩

section Listings

variable {rows : List Row} {listing : Listing}

/-- What is found in a listing is the body of the row with the key's code. -/
theorem find?_of_keeps (kept : List.Forall₂ (Row.Keeps table) rows listing) (key : Address) :
    (rows.find? fun r => r.isAt table key.value.code).map Row.body =
      Entries.find? listing key := by
  induction kept with
  | nil => rfl
  | cons keeps _ ih =>
    rw [Entries.find?_cons, List.find?_cons, keeps.isAt key]
    split
    · rename_i here
      rw [here, if_pos rfl, Option.map_some, keeps.body]
    · rename_i elsewhere
      rw [elsewhere, if_neg Bool.false_ne_true]
      exact ih

/-- Overwriting the row of a key overwrites the document of the listing in its place. -/
theorem keeps_overwrite (kept : List.Forall₂ (Row.Keeps table) rows listing)
    (distinct : rows.Pairwise fun r s => s.isAt r.table r.code = false)
    (present : Entries.find? listing key ≠ none) (d : Document) :
    List.Forall₂ (Row.Keeps table) (rows.map (Database.overwrite table key.value.code d))
      (Entries.put listing key d) := by
  induction kept with
  | nil => exact absurd rfl present
  | @cons r e rows listing keeps kept ih =>
    obtain ⟨apart, distinct⟩ := List.pairwise_cons.1 distinct
    rw [Entries.find?_cons] at present
    rw [List.map_cons, Entries.put]
    split
    · rename_i here
      -- No other row has the code, so the rest stays as it is.
      have rest : rows.map (Database.overwrite table key.value.code d) = rows := by
        refine (List.map_congr_left fun s hs => if_neg ?_).trans (List.map_id rows)
        rw [← keeps.table, ← (keeps.beq key).1 here, apart s hs]
        exact Bool.false_ne_true
      rw [Database.overwrite, keeps.isAt key, if_pos here, rest]
      exact .cons ⟨keeps.table, keeps.code, rfl⟩ kept
    · rename_i elsewhere
      rw [if_neg elsewhere] at present
      rw [Database.overwrite, keeps.isAt key, if_neg elsewhere]
      exact .cons keeps (ih distinct present)

/-- Taking away the row of a key takes it from the listing. -/
theorem keeps_erase (kept : List.Forall₂ (Row.Keeps table) rows listing)
    (distinct : rows.Pairwise fun r s => s.isAt r.table r.code = false) (key : Address) :
    List.Forall₂ (Row.Keeps table) (rows.filter fun r => !r.isAt table key.value.code)
      (Entries.erase listing key) := by
  induction kept with
  | nil => exact .nil
  | @cons r e rows listing keeps kept ih =>
    obtain ⟨apart, distinct⟩ := List.pairwise_cons.1 distinct
    rw [List.filter_cons, Entries.erase, keeps.isAt key]
    cases here : e.1 == key with
    | true =>
      have rest : (rows.filter fun r => !r.isAt table key.value.code) = rows := by
        refine List.filter_eq_self.2 fun s hs => ?_
        rw [← keeps.table, ← (keeps.beq key).1 here, apart s hs]
        rfl
      rw [rest]
      exact kept
    | false => exact .cons keeps (ih distinct)

end Listings

/-! ## Databases and catalogs -/

/-- A database keeps a table as it stands on a shelf, and its documents hold their keys. -/
structure Database.Holds (db : Database) (table : String) (shelf : Shelf) : Prop where
  field : db.keyField? table = shelf.field
  listed : List.Forall₂ (Row.Keeps table) (Target.rowsOf db table) shelf.listing
  carried : ∀ field ∈ shelf.field, ∀ e ∈ shelf.listing, e.2.IsKeyed field e.1.value.code

/-- A database keeps all tables of a catalog. -/
structure Database.Keeps (db : Database) (m : Catalog) : Prop where
  rows : db.Ordered
  names : (db.tables.map Prod.fst).Nodup
  holds : ∀ table, db.Holds table (m table)

namespace Database

theorem Keeps.empty : Database.empty.Keeps .empty where
  rows := .empty
  names := List.nodup_nil
  holds _ := ⟨rfl, .nil, fun _ h => nomatch h⟩

theorem Holds.find? (h : db.Holds table shelf) (key : Address) :
    db.find? table key.value.code = Entries.find? shelf.listing key := by
  rw [← find?_of_keeps h.listed key, Target.rowsOf, List.find?_filter]
  unfold Database.find?
  congr 2
  funext r
  rw [Bool.eq_iff_iff]
  simp [Row.isAt]

/-- The other tables are as they were. -/
def Spares (table : String) (db next : Database) : Prop :=
  ∀ other, other ≠ table →
    next.keyField? other = db.keyField? other ∧
      Target.rowsOf next other = Target.rowsOf db other

/-- One table is put in its place on the shelves. -/
theorem Keeps.update (h : db.Keeps m) (rows : next.Ordered)
    (names : (next.tables.map Prod.fst).Nodup) (spares : Spares table db next)
    (here : next.Holds table shelf) : next.Keeps (Function.update m table shelf) where
  rows := rows
  names := names
  holds other := by
    by_cases same : other = table
    · subst same
      rw [Function.update_self]
      exact here
    · obtain ⟨field, others⟩ := spares other same
      have old := h.holds other
      rw [Function.update_of_ne same]
      exact ⟨field.trans old.field, others.symm ▸ old.listed, old.carried⟩

/-- The rows of a table are apart from those at an address of another. -/
theorem rowsOf_of_isAt {other code : String} (ne : other ≠ table) (r : Row)
    (at_code : r.isAt table code = true) : (r.table == other) = false := by
  rw [((isAt_iff r table code).1 at_code).1]
  exact beq_eq_false_iff_ne.2 ne.symm

theorem distinct_rowsOf (h : db.Ordered) (table : String) :
    (Target.rowsOf db table).Pairwise fun r s => s.isAt r.table r.code = false :=
  h.distinct.filter _

theorem rowsOf_write_of_isSome {code : String} (present : (db.find? table code).isSome = true)
    (d : Document) :
    Target.rowsOf (db.write table code d) table =
      (Target.rowsOf db table).map (overwrite table code d) := by
  rw [Target.rowsOf, Target.rowsOf, write_of_isSome present, List.filter_map]
  congr 1
  refine List.filter_congr fun r _ => ?_
  rw [Function.comp_apply, overwrite_table]

theorem rowsOf_write_of_eq_none {code : String} (absent : db.find? table code = none)
    (d : Document) :
    Target.rowsOf (db.write table code d) table =
      Target.rowsOf db table ++ [⟨db.lastSeq + 1, table, code, d⟩] := by
  rw [Target.rowsOf, Target.rowsOf, write_of_eq_none absent, List.filter_append]
  simp

theorem rowsOf_remove (db : Database) (table code : String) :
    Target.rowsOf (db.remove table code) table =
      (Target.rowsOf db table).filter fun r => !r.isAt table code := by
  rw [Target.rowsOf, Target.rowsOf, remove, List.filter_filter, List.filter_filter]
  refine List.filter_congr fun r _ => Bool.and_comm _ _

/-- What is listed after a document was written, whether its key was there or not. -/
theorem Holds.listed_write (h : db.Holds table shelf) (rows : db.Ordered) (key : Address)
    (d : Document) :
    List.Forall₂ (Row.Keeps table) (Target.rowsOf (db.write table key.value.code d) table)
      (Entries.put shelf.listing key d) := by
  cases found : db.find? table key.value.code with
  | some old =>
    rw [rowsOf_write_of_isSome (by rw [found]; rfl)]
    refine keeps_overwrite h.listed (distinct_rowsOf rows table) ?_ d
    rw [← h.find? key, found]
    exact Option.some_ne_none old
  | none =>
    rw [rowsOf_write_of_eq_none found, Entries.put_of_absent d ((h.find? key).symm.trans found)]
    exact List.rel_append h.listed (.cons ⟨rfl, rfl, rfl⟩ .nil)

/-- What fits a table holds its key, also when it is read back. -/
theorem isKeyed_of_fits {sheet : Sheet} {field : String} (fits : shelf.Fits key (some sheet))
    (own : field ∈ shelf.field) : sheet.document.reread.IsKeyed field key.value.code :=
  (Document.isKeyed_of_same (Value.isKey_of_isAddress key.isAddress)
    (fits field own sheet rfl)).reread

/-- A document that fits is written, or a document is removed, in the database as in the catalog. -/
theorem Keeps.written (h : db.Keeps m) {sheet : Option Sheet} (fits : (m table).Fits key sheet) :
    (db.enact table key.value.code (some (sheet.map fun written => written.document.reread))).Keeps
      (Function.update m table
        { m table with listing := (m table).listing.write key sheet }) := by
  have here := h.holds table
  cases sheet with
  | some sheet =>
    rw [Option.map_some, enact]
    refine h.update (h.rows.write _) (by rw [tables_write]; exact h.names)
      (fun other ne => ⟨keyField?_write, ?_⟩)
      ⟨keyField?_write.trans here.field, here.listed_write h.rows key _, fun field own e he => ?_⟩
    · exact filter_write (rowsOf_of_isAt ne)
    · rcases Listing.mem_put he with ⟨code, body⟩ | old
      · rw [code, body]
        exact isKeyed_of_fits fits own
      · exact here.carried field own e old
  | none =>
    rw [Option.map_none, enact]
    refine h.update (h.rows.filter _ _) h.names (fun other ne => ⟨rfl, ?_⟩)
      ⟨here.field, ?_, fun field own e he => ?_⟩
    · exact filter_remove (rowsOf_of_isAt ne)
    · rw [rowsOf_remove]
      exact keeps_erase here.listed (distinct_rowsOf h.rows table) key
    · exact here.carried field own e ((Entries.erase_sublist _ _).subset he)

/-- A new table has the documents that were put under its name before. -/
theorem Keeps.added (h : db.Keeps m) {field : String}
    (admits : (m table).field = none →
      ∀ e ∈ (m table).listing, (e.2.fieldOrNull field).same e.1.value = true) :
    match db.addTable? table field with
    | none => ∃ old, (m table).field = some old
    | some next => (m table).field = none ∧
      next.Keeps (Function.update m table { m table with field := some field }) := by
  have here := h.holds table
  unfold addTable? Entries.has
  rw [show Entries.find? db.tables table = (m table).field from here.field]
  cases absent : (m table).field with
  | some old => exact ⟨old, rfl⟩
  | none =>
    have new : Entries.find? db.tables table = none := here.field.trans absent
    rw [if_neg (by simp), ← Entries.put_of_absent field new]
    refine ⟨rfl, h.update ⟨h.rows.distinct, h.rows.ascending, h.rows.positive⟩
      (Entries.nodup_put h.names table field) (fun other ne => ⟨?_, rfl⟩)
      ⟨Entries.find?_put_self _ _ _, here.listed, ?_⟩⟩
    · exact Entries.find?_put_of_ne _ _ ne.symm
    · rintro _ ⟨⟩ e he
      exact Document.isKeyed_of_same (Value.isKey_of_isAddress e.1.isAddress)
        (admits absent e he)

/-- A table that is removed leaves an empty shelf. -/
theorem Keeps.removed (h : db.Keeps m) :
    (db.removeTable table).Keeps (Function.update m table .empty) := by
  have gone : Target.rowsOf (db.removeTable table) table = [] := by
    rw [Target.rowsOf, removeTable, List.filter_filter]
    exact List.filter_eq_nil_iff.2 fun r _ => by simp
  refine h.update (h.rows.filter _ _) (Entries.nodup_erase h.names table)
    (fun other ne => ⟨Entries.find?_erase_of_ne _ ne.symm, ?_⟩)
    ⟨Entries.find?_erase_self h.names table, ?_, fun _ own => nomatch own⟩
  · rw [Target.rowsOf, removeTable, List.filter_filter]
    refine List.filter_congr fun r _ => ?_
    by_cases own : r.table = other
    · simp [own, ne]
    · simp [own]
  · rw [gone]
    exact .nil

end Database

end Folio
