import Folio.Document.Basic
/-!
# Database

What a store keeps: the tables with their key fields, and one row for each document. A row is
addressed by its table and the code of its key. Rows stand in the order of their sequence
numbers, which is the order in which documents were first inserted; overwriting a document keeps
its row, and a new row's number is one more than the largest present.
-/

namespace Folio

/-- One stored document. -/
structure Row where
  seq : Nat
  table : String
  code : String
  body : Document

/-- The tables with their key fields, and the rows by ascending sequence number. -/
structure Database where
  tables : Entries String String
  rows : List Row

namespace Row

/-- Whether a row is the one of a key. -/
def isAt (r : Row) (table code : String) : Bool := r.table == table && r.code == code

end Row

namespace Database

/-- The database without tables. -/
def empty : Database := ⟨[], []⟩

/-! ## Documents -/

/-- The document under a key. -/
def find? (db : Database) (table code : String) : Option Document :=
  (db.rows.find? fun r => r.isAt table code).map Row.body

/-- The largest sequence number present. -/
def lastSeq (db : Database) : Nat := db.rows.foldl (fun n r => max n r.seq) 0

/-- Writes a document under a key, in the row of that key or in a new last one. -/
def write (db : Database) (table code : String) (body : Document) : Database :=
  if db.rows.any fun r => r.isAt table code then
    { db with rows := db.rows.map fun r => if r.isAt table code then { r with body } else r }
  else
    { db with rows := db.rows ++ [⟨db.lastSeq + 1, table, code, body⟩] }

/-- Removes the document under a key. -/
def remove (db : Database) (table code : String) : Database :=
  { db with rows := db.rows.filter fun r => !r.isAt table code }

@[simp] theorem isAt_body (r : Row) (body : Document) (table code : String) :
    ({ r with body } : Row).isAt table code = r.isAt table code := rfl

theorem isAt_iff (r : Row) (table code : String) :
    r.isAt table code = true ↔ r.table = table ∧ r.code = code := by
  simp [Row.isAt]

/-- What was written is what is read. -/
@[simp] theorem find?_write_self (db : Database) (table code : String) (body : Document) :
    (db.write table code body).find? table code = some body := by
  unfold write find?
  split
  · rename_i h
    obtain ⟨r, hr, hat⟩ := List.any_eq_true.1 h
    obtain ⟨found, hf⟩ : ∃ found, db.rows.find? (fun r => r.isAt table code) = some found :=
      Option.isSome_iff_exists.1 (List.find?_isSome.2 ⟨r, hr, hat⟩)
    have hp : ((fun r : Row => r.isAt table code) ∘ fun r : Row =>
        if r.isAt table code then { r with body } else r) = fun r => r.isAt table code := by
      funext r
      by_cases h : r.isAt table code <;> simp [h]
    have hat : found.isAt table code = true := by simpa using List.find?_some hf
    rw [List.find?_map, hp, hf]
    simp [hat]
  · rename_i h
    have absent : db.rows.find? (fun r => r.isAt table code) = none := by
      simpa using h
    have present : (Row.mk (db.lastSeq + 1) table code body).isAt table code = true := by
      simp [Row.isAt]
    simp [List.find?_append, absent, present]

/-- A removed document is gone. -/
@[simp] theorem find?_remove_self (db : Database) (table code : String) :
    (db.remove table code).find? table code = none := by
  simp [remove, find?]

/-- The number of rows of a key. -/
def count (db : Database) (table code : String) : Nat :=
  (db.rows.filter fun r => r.isAt table code).length

/-- The rows of a table with numbers above one, in order. -/
def rowsAfter (db : Database) (table : String) (after : Nat) : List Row :=
  db.rows.filter fun r => r.table == table && decide (after < r.seq)

/-- The first rows of a table with numbers above one; no limit stands for all of them. -/
def page (db : Database) (table : String) (after : Nat) (limit : Option Nat) : List Row :=
  match limit with
  | some n => (db.rowsAfter table after).take n
  | none => db.rowsAfter table after

/-! ## Tables -/

/-- The key field of a table. -/
def keyField? (db : Database) (table : String) : Option String := Entries.find? db.tables table

/-- The names of the tables, by code points. -/
def tableNames (db : Database) : List String :=
  (db.tables.map Prod.fst).mergeSort fun a b => decide (a ≤ b)

/-- Adds a table; its name must be new. -/
def addTable? (db : Database) (table keyField : String) : Option Database :=
  if Entries.has db.tables table then none
  else some { db with tables := db.tables ++ [(table, keyField)] }

/-- Removes a table and all its rows. -/
def removeTable (db : Database) (table : String) : Database where
  tables := Entries.erase db.tables table
  rows := db.rows.filter fun r => r.table != table

end Database

end Folio
