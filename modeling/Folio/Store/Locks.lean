import Folio.Entries
/-!
# Key locks

One lock for each key in use. A holder checks out the entry of its key, acquires the lock object
in it, and after its release checks the entry in again; an entry counts the holders between
check-out and check-in and goes away with the last one. Each of these steps is atomic, and the
steps of several holders may come in any order.
-/

namespace Folio

/-- What a lock guards: a table and the code of a key. -/
abbrev LockIdentity := String × String

/-- A lock object and the number of holders that have checked it out. -/
structure LockEntry where
  object : Nat
  users : Nat
  deriving DecidableEq

/-- The entries by what they guard, the lock objects that are held, and the next new object. -/
structure LockTable where
  entries : Entries LockIdentity LockEntry
  held : List Nat
  next : Nat
  deriving DecidableEq

/-- A lock that is held, until it is released. -/
structure Hold where
  identity : LockIdentity
  object : Nat
  deriving DecidableEq

namespace LockTable

/-- The table without entries. -/
def empty : LockTable := ⟨[], [], 0⟩

/-- The number of entries. -/
def size (t : LockTable) : Nat := t.entries.length

/-- Counts a holder in, and answers with the lock object of the entry, which may be new. -/
def checkOut (t : LockTable) (identity : LockIdentity) : Nat × LockTable :=
  match Entries.find? t.entries identity with
  | some e =>
    (e.object, { t with entries := Entries.put t.entries identity ⟨e.object, e.users + 1⟩ })
  | none =>
    (t.next, { t with entries := Entries.put t.entries identity ⟨t.next, 1⟩, next := t.next + 1 })

/-- Takes a lock object, if it is free. -/
def acquire? (t : LockTable) (object : Nat) : Option LockTable :=
  if t.held.contains object then none else some { t with held := object :: t.held }

/-- Gives a lock object back. -/
def release (t : LockTable) (object : Nat) : LockTable :=
  { t with held := t.held.filter fun held => held != object }

/-- Counts a holder out; the last one removes the entry. There has to be an entry. -/
def checkIn? (t : LockTable) (identity : LockIdentity) : Option LockTable :=
  match Entries.find? t.entries identity with
  | some e =>
    if e.users ≤ 1 then some { t with entries := Entries.erase t.entries identity }
    else some { t with entries := Entries.put t.entries identity ⟨e.object, e.users - 1⟩ }
  | none => none

/-- Counts a holder out, where there is an entry. -/
def checkIn (t : LockTable) (identity : LockIdentity) : LockTable := (t.checkIn? identity).getD t

/-- The end of a hold: the lock object is free and the holder is counted out. -/
def finish (t : LockTable) (hold : Hold) : LockTable :=
  (t.release hold.object).checkIn hold.identity

end LockTable

end Folio
