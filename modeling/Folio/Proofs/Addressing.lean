import Folio.Proofs.Courses
import Folio.Proofs.Faithful
import Folio.Proofs.Grouping
import Folio.Proofs.Holders
/-!
# Keys and what they address

A key is a text or a number; one that is not a number addresses nothing that is found again. Any two
other keys have one code exactly when they are the same value. Whatever goes by codes goes by keys,
therefore: a row, an entry of the lock table and a group of an insert belong to one key, however it
is spelt. Every integer has a code, however long it is.
-/

namespace Folio

namespace Term

/-- Whether a term is NaN. -/
def isNaN : Term → Bool
  | .scalar s => s.isNaN
  | _ => false

/-- A key other than NaN is a value that addresses a document. -/
theorem exists_address {t : Term} (key : t.isKey = true) (number : t.isNaN = false) :
    ∃ v : Value, v.toTerm = t ∧ v.isAddress = true := by
  cases t with
  | scalar s =>
    refine ⟨.scalar s, rfl, ?_⟩
    cases s with
    | null => cases key
    | bool b => cases key
    | text s => rfl
    | number n =>
      cases n with
      | int i => rfl
      | float x =>
        replace number : x.isNaN = false := number
        rw [Value.isAddress, number]
        rfl
  | _ => cases key

end Term

/-! ## Rows, locks and groups -/

namespace Database

/-- A write is found under its own code only. -/
theorem find?_write (db : Database) (table code other : String) (body : Document) :
    (db.write table code body).find? table other =
      if code = other then some body else db.find? table other := by
  split
  · rename_i same
    rw [← same, find?_write_self]
  · rename_i apart
    exact find?_enact_of_ne (fun _ same => apart same.symm) (some (some body))

end Database

namespace LockTable

/-- A holder is counted in the entry of its own identity only. -/
theorem find?_checkOut_ne_iff (t : LockTable) (identity other : LockIdentity) :
    Entries.find? (t.checkOut identity).2.entries other ≠ Entries.find? t.entries other ↔
      identity = other := by
  constructor
  · intro changed
    by_contra apart
    exact changed (find?_checkOut_of_ne t apart)
  · rintro rfl same
    unfold checkOut at same
    split at same
    · rename_i e found
      rw [found, Entries.find?_put_self] at same
      have users := congrArg LockEntry.users (Option.some.inj same)
      exact absurd users (Nat.succ_ne_self _)
    · rename_i found
      rw [found, Entries.find?_put_self] at same
      cases same

end LockTable

namespace Writer

/-- Two tasks are in one group exactly if their keys have one code. -/
theorem shares_group_iff {tasks : List Task} {s t : Task} (hs : s ∈ tasks) (ht : t ∈ tasks) :
    (∃ group ∈ (groups tasks).map Prod.snd, s ∈ group ∧ t ∈ group) ↔
      s.key.code = t.key.code := by
  constructor
  · rintro ⟨group, hg, sin, tin⟩
    obtain ⟨⟨code, group⟩, he, rfl⟩ := List.mem_map.1 hg
    rw [eq_filter_of_mem_groups he] at sin tin
    have first := eq_of_beq (List.mem_filter.1 sin).2
    have second := eq_of_beq (List.mem_filter.1 tin).2
    exact first.trans second.symm
  · intro same
    have found := find?_groups tasks s.key.code
    have sin : s ∈ tasks.filter (hasCode s.key.code) :=
      List.mem_filter.2 ⟨hs, beq_self_eq_true _⟩
    have tin : t ∈ tasks.filter (hasCode s.key.code) :=
      List.mem_filter.2 ⟨ht, beq_iff_eq.2 same.symm⟩
    cases hf : Entries.find? (groups tasks) s.key.code with
    | none =>
      rw [hf] at found
      rw [← found] at sin
      cases sin
    | some group =>
      rw [hf, Option.getD_some] at found
      rw [← found] at sin tin
      exact ⟨group, List.mem_map_of_mem (Entries.mem_of_find? hf), sin, tin⟩

end Writer

/-! ## Keys -/

namespace Term

/-- Two keys other than NaN have one code exactly when they are the same value. Then what is written
under one of them is found under the other, a holder of the one is counted in the entry of the
other, and tasks on them are in one group; else none of this is so. -/
theorem addresses_agree {a b : Term} (ha : a.isKey = true) (hb : b.isKey = true)
    (na : a.isNaN = false) (nb : b.isNaN = false) :
    ∃ c d, a.encodeKey = .ok c ∧ b.encodeKey = .ok d ∧ (c = d ↔ a.same b = true) ∧
      (∀ (db : Database) (table : String) (body : Document),
        (db.write table c body).find? table d =
          if a.same b = true then some body else db.find? table d) ∧
      (∀ (locks : LockTable) (table : String),
        Entries.find? (locks.checkOut (table, c)).2.entries (table, d) ≠
          Entries.find? locks.entries (table, d) ↔ a.same b = true) ∧
      ∀ (tasks : List Task), ∀ s ∈ tasks, ∀ t ∈ tasks, s.key.toTerm = a → t.key.toTerm = b →
        ((∃ group ∈ (Writer.groups tasks).map Prod.snd, s ∈ group ∧ t ∈ group) ↔
          a.same b = true) := by
  obtain ⟨v, rfl, hv⟩ := exists_address ha na
  obtain ⟨w, rfl, hw⟩ := exists_address hb nb
  have agree : v.code = w.code ↔ v.toTerm.same w.toTerm = true := Value.code_eq_iff hv hw
  refine ⟨v.code, w.code, v.encodeKey_toTerm, w.encodeKey_toTerm, agree, ?_, ?_, ?_⟩
  · intro db table body
    rw [Database.find?_write]
    simp only [agree]
  · intro locks table
    rw [LockTable.find?_checkOut_ne_iff, Prod.mk.injEq]
    simp only [true_and, agree]
  · intro tasks s hs t ht sv tw
    have first : s.key.code = v.code := by
      rw [← Except.ok.injEq (ε := EncodingFault), ← Value.encodeKey_toTerm, sv,
        Value.encodeKey_toTerm]
    have second : t.key.code = w.code := by
      rw [← Except.ok.injEq (ε := EncodingFault), ← Value.encodeKey_toTerm, tw,
        Value.encodeKey_toTerm]
    rw [Writer.shares_group_iff hs ht, first, second, agree]

/-- The keys 1 and 1.0 are one, and so are the codes of what has them. -/
theorem addresses_agree_whole :
    (Term.int 1).isKey = true ∧ Contention.wholeKey.toTerm.isKey = true ∧
      (Term.int 1).isNaN = false ∧ Contention.wholeKey.toTerm.isNaN = false ∧
      (Term.int 1).same Contention.wholeKey.toTerm = true ∧
      ∃ c d, (Term.int 1).encodeKey = .ok c ∧ Contention.wholeKey.toTerm.encodeKey = .ok d ∧
        c = d ∧ ∀ body, (Database.empty.write "posts" c body).find? "posts" d = some body := by
  have same : (Term.int 1).same Contention.wholeKey.toTerm = true := by decide +kernel
  obtain ⟨c, d, hc, hd, agree, written, -, -⟩ :=
    addresses_agree (a := .int 1) (b := Contention.wholeKey.toTerm) rfl rfl rfl rfl
  refine ⟨rfl, rfl, rfl, rfl, same, c, d, hc, hd, agree.2 same, fun body => ?_⟩
  rw [written, if_pos same]

end Term

end Folio
