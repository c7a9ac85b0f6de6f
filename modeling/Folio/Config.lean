import Folio.Failure
/-!
# Configuration

The settings of a store: the key field of tables that name none, how long a key lock may be
waited for, how many workers run one request, and the first part of the names of the database
tables. They are checked in this order when the configuration is built.
-/

namespace Folio

/-- The settings of a store, as they were given. -/
structure Config where
  keyField : Term
  lockTimeout : Term
  maxWorkers : Term
  tableStem : Term

/-- A column of a database table: its name and type, whether it is the key of the table, and
whether it may be null. -/
structure Column where
  name : String
  type : String
  isKey : Bool
  nullable : Bool

/-- The layout of a database table. -/
structure TableLayout where
  name : String
  columns : List Column
  indexes : List String

/-- Whether a foreign value is a zero or empty. -/
def Foreign.isBlank (f : Foreign) : Bool :=
  match f.kind with
  | .number n => n.equalScalar (.number (.int 0))
  | .bytes text => text == "b''"
  | .set text => text == "set()"
  | _ => false

namespace Term

/-- Whether a term is null, false, a zero or empty. -/
def isBlank : Term → Bool
  | .scalar .null => true
  | .scalar (.bool b) => !b
  | .scalar (.number n) => n.same (.int 0)
  | .scalar (.text s) => s.isEmpty
  | .list items => items.isEmpty
  | .tuple items => items.isEmpty
  | .mapping entries => entries.isEmpty
  | .foreign f => f.isBlank
  | _ => false

/-- Compares a term with an integer. -/
def againstInt (relation : OrderRelation) (t : Term) (i : Int) : Except Failure Bool :=
  match t.holds relation (.int i) with
  | .ok b => .ok b
  | .error (left, right) => .error (.incomparable relation left right)

end Term

namespace Config

/-- The settings of a store that is given none: ten seconds for a lock and a single worker. -/
def standard : Config where
  keyField := .text "id"
  lockTimeout := .scalar (.number (.float (Binary64.ofDecimal false 10 0)))
  maxWorkers := .int 1
  tableStem := .text "docwrite"

/-- Checks settings. -/
def check (c : Config) : Except Failure Config := do
  if c.keyField.isBlank then throw (.config .keyField)
  if ← c.lockTimeout.againstInt .le 0 then throw (.config .lockTimeout)
  if ← c.maxWorkers.againstInt .lt 1 then throw (.config .maxWorkers)
  return c

/-- Whether the documents of a request may be processed by several workers. -/
def isParallel (c : Config) : Bool :=
  match c.maxWorkers.againstInt .le 1 with
  | .ok single => !single
  | .error _ => false

/-- The layouts of the two database tables of a store. -/
def layouts (stem : String) : List TableLayout :=
  [⟨stem ++ "_tables",
      [⟨"name", "VARCHAR(128)", true, false⟩, ⟨"primary_key", "VARCHAR(128)", false, false⟩], []⟩,
    ⟨stem ++ "_documents",
      [⟨"seq", "INTEGER", true, false⟩, ⟨"table_name", "VARCHAR(128)", false, false⟩,
        ⟨"doc_key", "VARCHAR(512)", false, false⟩, ⟨"body", "JSON", false, false⟩],
      ["ix_" ++ stem ++ "_table_seq"]⟩]

end Config

end Folio
