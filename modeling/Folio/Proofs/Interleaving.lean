import Folio.Proofs.Reachability
import Folio.Proofs.Scanning
/-!
# Scans between writes

A scan that is left open while documents are inserted, replaced and removed. The cursor survives the
writes; its pending rows may be out of date and numbers behind it may be used again. What holds all
the same: the rows that it shows ascend by number, each was on a page of its table and selected, and
a document that is there all the time and selected in each of its versions is shown exactly once.
The invariant says where such a document is: shown, pending, or ahead of the cursor.
-/

namespace Folio

open Run StoreState

variable {setup : Setup} {s t : StoreState} {db : Database} {c next : Cursor} {row : Row}

namespace Database

/-- One document was written or removed, in any table. -/
def Changed (db other : Database) : Prop :=
  ∃ table code, (∃ d, other = db.write table code d) ∨ other = db.remove table code

variable {other : Database} {table code : String}

theorem Changed.ordered (h : db.Changed other) (ordered : db.Ordered) : other.Ordered := by
  obtain ⟨table, code, ⟨d, rfl⟩ | rfl⟩ := h
  · exact ordered.write d
  · exact ordered.filter db.tables _

/-- A document that is there before and after keeps its number. -/
theorem Changed.seq_eq (h : db.Changed other) (ordered : db.Ordered) {r u : Row} (hr : r ∈ db.rows)
    (hu : u ∈ other.rows) (at_r : r.isAt table code = true) (at_u : u.isAt table code = true) :
    u.seq = r.seq := by
  have single : ∀ x ∈ db.rows, x.isAt table code = true → x = r := by
    intro x hx at_x
    obtain ⟨rfl, rfl⟩ := (isAt_iff r _ _).1 at_r
    exact (ordered.eq_of_isAt hr hx at_x).symm
  obtain ⟨table', code', ⟨d, rfl⟩ | rfl⟩ := h
  · cases hf : db.find? table' code' with
    | some old =>
      rw [write_of_isSome (by rw [hf]; rfl)] at hu
      obtain ⟨x, hx, rfl⟩ := List.mem_map.1 hu
      rw [overwrite_isAt] at at_u
      rw [overwrite_seq, single x hx at_u]
    | none =>
      rw [write_of_eq_none hf] at hu
      rcases List.mem_append.1 hu with hu | hu
      · rw [single u hu at_u]
      · -- A new row has an address at which there was none.
        rw [List.mem_singleton] at hu
        subst hu
        obtain ⟨rfl, rfl⟩ := (isAt_iff _ _ _).1 at_u
        have free := find?_eq_none.1 hf r hr
        rw [at_r] at free
        cases free
  · rw [single u (List.mem_filter.1 hu).1 at_u]

end Database

namespace Scan

/-- What a pass has asked about before it stops. -/
theorem of_first {predicate : Term} {calls later : List Call} {rows : List Row}
    {found : Option (Document × List Row)}
    (h : first setup predicate calls rows = (.ok found, later)) :
    ∃ skipped, (∀ r ∈ skipped, ∃ calls, verdict setup predicate r.body.toTerm calls = .ok false) ∧
      match found with
      | none => rows = skipped
      | some (document, rest) => ∃ row, rows = skipped ++ row :: rest ∧ row.body = document ∧
        ∃ calls, verdict setup predicate row.body.toTerm calls = .ok true := by
  induction rows generalizing calls with
  | nil =>
    cases h
    exact ⟨[], by simp, rfl⟩
  | cons row rows ih =>
    rw [first] at h
    split at h
    · cases h
    · rename_i said
      cases h
      exact ⟨[], by simp, row, rfl, rfl, _, said⟩
    · rename_i said
      obtain ⟨skipped, unselected, ended⟩ := ih h
      refine ⟨row :: skipped, ?_, ?_⟩
      · intro r hr
        rcases List.mem_cons.1 hr with rfl | hr
        · exact ⟨_, said⟩
        · exact unselected r hr
      · split at ended
        · rw [ended]
        · obtain ⟨found, split, ended⟩ := ended
          exact ⟨found, by rw [split]; rfl, ended⟩

theorem first_answers {predicate : Term}
    (decided : ∀ document calls, ∃ b, verdict setup predicate document calls = .ok b)
    (calls : List Call) (rows : List Row) :
    ∃ found, (first setup predicate calls rows).1 = .ok found := by
  induction rows generalizing calls with
  | nil => exact ⟨none, rfl⟩
  | cons row rows ih =>
    rw [first]
    obtain ⟨b, hb⟩ := decided row.body.toTerm (asking predicate row.body.toTerm calls)
    rw [hb]
    cases b with
    | true => exact ⟨_, rfl⟩
    | false => exact ih _

/-- What a pull does that shows a row: the rows that were left are those that it skips, the row, and
those that are left to the next cursor. -/
structure Advance (setup : Setup) (db : Database) (c next : Cursor) (skipped : List Row)
    (row : Row) : Prop where
  table : next.table = c.table
  predicate : next.predicate = c.predicate
  split : c.rest db = skipped ++ row :: next.rest db
  skipped : ∀ r ∈ skipped, ∃ calls, verdict setup c.predicate r.body.toTerm calls = .ok false
  selected : ∃ calls, verdict setup c.predicate row.body.toTerm calls = .ok true
  /-- What was fetched lies behind the next page. -/
  behind : ∀ r ∈ row :: next.pending, r.seq ≤ next.after
  fetched : (∀ r ∈ row :: next.pending, r ∈ c.pending) ∨
    ∃ after, ∀ r ∈ row :: next.pending, r ∈ db.page c.table after (some setup.pageSize)

/-- What a pull comes to: the next row, or that no row that was left is selected. -/
def Shows (setup : Setup) (db : Database) (c : Cursor) :
    Except Failure (Option (Document × Cursor)) → Prop
  | .ok (some (document, next)) =>
    ∃ skipped row, row.body = document ∧ Advance setup db c next skipped row
  | .ok none => ∀ r ∈ c.rest db, ∃ calls, verdict setup c.predicate r.body.toTerm calls = .ok false
  | .error _ => True

/-- The rows of a page lie behind the next one. -/
theorem turn_behind (h : db.Ordered) (c : Cursor) (pageSize : Nat) :
    ∀ r ∈ db.page c.table c.after (some pageSize),
      r.seq ≤ (turn c pageSize (db.page c.table c.after (some pageSize))).after := by
  intro r hr
  have ascending : (db.page c.table c.after (some pageSize)).Pairwise fun r u => r.seq < u.seq :=
    (db.rowsAfter_ascending h c.table c.after).sublist (List.take_sublist _ _)
  obtain ⟨front, last, split⟩ := (List.eq_nil_or_concat _).resolve_left (List.ne_nil_of_mem hr)
  rw [split, List.concat_eq_append] at hr ascending ⊢
  unfold turn
  rw [List.getLast?_concat, Option.map_some, Option.getD_some]
  rcases List.mem_append.1 hr with hr | hr
  · exact ((List.pairwise_append.1 ascending).2.2 r hr last (List.mem_singleton_self last)).le
  · rw [List.mem_singleton.1 hr]

/-- A row that is shown from the page that was turned to is shown from the cursor before it. -/
theorem Shows.of_turn (h : db.Ordered) (hp : 0 < setup.pageSize) (more : c.more = true)
    (unselected : ∀ r ∈ c.pending, ∃ calls,
      verdict setup c.predicate r.body.toTerm calls = .ok false)
    {result : Except Failure (Option (Document × Cursor))}
    (shows' : Shows setup db (turn c setup.pageSize
      (db.page c.table c.after (some setup.pageSize))) result) : Shows setup db c result := by
  have rest := (Cursor.rest_turn h hp more).1
  have whole : c.rest db = c.pending ++ db.rowsAfter c.table c.after := by
    rw [Cursor.rest, if_pos more]
  rcases result with f | _ | ⟨document, next⟩
  · trivial
  · intro r hr
    rw [whole] at hr
    rcases List.mem_append.1 hr with hr | hr
    · exact unselected r hr
    · exact shows' r (rest ▸ hr)
  · obtain ⟨skipped, row, body, ahead⟩ := shows'
    refine ⟨c.pending ++ skipped, row, body, ahead.table, ahead.predicate, ?_, ?_, ahead.selected,
      ahead.behind, .inr ?_⟩
    · rw [whole, ← rest, ahead.split, List.append_assoc]
    · intro r hr
      rcases List.mem_append.1 hr with hr | hr
      · exact unselected r hr
      · exact ahead.skipped r hr
    · rcases ahead.fetched with here | later
      · exact ⟨_, here⟩
      · exact later

theorem pullWithin_shows (hp : 0 < setup.pageSize) (h : db.Ordered) {pages : Nat} {c : Cursor}
    (hs : s.database = db) (enough : c.unread db < pages)
    (behind : ∀ r ∈ c.pending, r.seq ≤ c.after) :
    Ensures setup s (pullWithin pages c) fun r t => t.database = db ∧ Shows setup db c r := by
  induction pages generalizing c s with
  | zero => omega
  | succ pages ih =>
    rw [pullWithin]
    refine Ensures.bind (P := fun r t => t = { s with calls :=
      (first setup c.predicate s.calls c.pending).2 } ∧
      r = (first setup c.predicate s.calls c.pending).1) ?_ ?_ ?_
    · unfold Ensures
      rw [exec_firstSelected]
      exact ⟨rfl, rfl⟩
    · rintro found _ ⟨rfl, hfound⟩
      obtain ⟨skipped, unselected, ended⟩ := of_first (Prod.ext hfound.symm rfl)
      rcases found with _ | ⟨document, rows⟩
      · -- All pending rows are skipped, and the pull goes on with the next page.
        subst ended
        dsimp only
        cases hm : c.more with
        | false =>
          refine ⟨hs, fun r hr => unselected r ?_⟩
          rwa [Cursor.rest, hm, if_neg Bool.false_ne_true, List.append_nil] at hr
        | true =>
          obtain ⟨-, fewer⟩ := Cursor.rest_turn h hp hm
          refine ensures_read (Ensures.bind (fetchPage_ends _ _ _) ?_ ?_)
          · rintro rows t ⟨⟨n, rfl⟩, hrows⟩
            dsimp only at hrows
            rw [hs] at hrows
            subst hrows
            refine Ensures.mono (ih (c := turn c setup.pageSize
              (db.page c.table c.after (some setup.pageSize))) ?_ (by omega)
              (turn_behind h c _)) fun r t ended => ?_
            · exact hs
            · exact ⟨ended.1, ended.2.of_turn h hp hm unselected⟩
          · rintro f _ ⟨⟨n, rfl⟩, -⟩
            exact ⟨hs, trivial⟩
      · obtain ⟨row, split, body, selected⟩ := ended
        have later : ∀ r ∈ row :: rows, r ∈ c.pending := fun r hr =>
          split ▸ List.mem_append_right skipped hr
        refine ⟨hs, skipped, row, body, rfl, rfl, ?_, unselected, selected,
          fun r hr => behind r (later r hr), .inl later⟩
        rw [Cursor.rest, Cursor.rest, split, List.append_assoc]
        rfl
    · rintro f _ ⟨rfl, -⟩
      exact ⟨hs, trivial⟩

end Scan

/-- A pull shows the next row of those that are left, and leaves the database alone. -/
theorem Cursor.pull_shows (hp : 0 < setup.pageSize) (h : s.database.Ordered) (c : Cursor)
    (behind : ∀ r ∈ c.pending, r.seq ≤ c.after) :
    Ensures setup s c.pull fun r t =>
      t.database = s.database ∧ Scan.Shows setup s.database c r := by
  refine ensures_get (Scan.pullWithin_shows hp h rfl ?_ behind)
  have : (s.database.rowsAfter c.table c.after).length ≤ s.database.rows.length :=
    Database.length_rowsAfter_le c.table c.after
  unfold Cursor.unread
  split <;> omega

/-- A pull answers as long as the predicate does and no fault strikes. -/
theorem Cursor.pull_answers (hp : 0 < setup.pageSize) (h : s.database.Ordered) (c : Cursor)
    (unharmed : s.faults = [])
    (decided : ∀ document calls, ∃ b, Scan.verdict setup c.predicate document calls = .ok b) :
    ∃ found, (c.pull.exec setup s).1 = .ok found := by
  have ended := @pull_ends setup s hp h c
  unfold Ensures at ended
  obtain ⟨faulty, -⟩ | ⟨-, -, pulls⟩ := ended
  · exact absurd unharmed faulty
  · obtain ⟨found, hf⟩ := Scan.first_answers decided s.calls (c.rest s.database)
    rw [hf] at pulls
    rcases found with _ | ⟨document, rows⟩
    · exact ⟨_, pulls⟩
    · obtain ⟨next, pulls, -⟩ := pulls
      exact ⟨_, pulls⟩

/-! ## Histories -/

/-- A row, and the moment at which a page with it was read. -/
structure Sighting where
  moment : Nat
  row : Row

section History

variable {history : Nat → Database} {table code : String} {predicate : Term} {n : Nat}
variable {pulls : List Nat} {shown : List Document} {sightings : List Sighting}

/-- Each database up to a moment came from the one before by one change. -/
structure Chronicle (history : Nat → Database) (n : Nat) : Prop where
  ordered : ∀ k ≤ n, (history k).Ordered
  changed : ∀ k < n, (history k).Changed (history (k + 1))

/-- The next change. -/
theorem Chronicle.succ (h : Chronicle history n) (changed : (history n).Changed (history (n + 1))) :
    Chronicle history (n + 1) where
  ordered k hk := by
    rcases Nat.le_succ_iff.1 hk with hk | rfl
    · exact h.ordered k hk
    · exact changed.ordered (h.ordered n le_rfl)
  changed k hk := by
    rcases Nat.lt_succ_iff_lt_or_eq.1 hk with hk | rfl
    · exact h.changed k hk
    · exact changed

/-- A document keeps its number for as long as it is there. -/
theorem Chronicle.seq_eq (h : Chronicle history n) {i j : Nat} (hij : i ≤ j) (hj : j ≤ n)
    (there : ∀ k, i < k → k < j → (history k).find? table code ≠ none) {r u : Row}
    (hr : r ∈ (history i).rows) (hu : u ∈ (history j).rows) (at_r : r.isAt table code = true)
    (at_u : u.isAt table code = true) : u.seq = r.seq := by
  induction j, hij using Nat.le_induction generalizing u with
  | base =>
    obtain ⟨rfl, rfl⟩ := (Database.isAt_iff r _ _).1 at_r
    rw [(h.ordered i hj).eq_of_isAt hr hu at_u]
  | succ j hij ih =>
    -- The document is there just before, with the number that it had at first.
    obtain ⟨x, hx, at_x⟩ : ∃ x ∈ (history j).rows, x.isAt table code = true := by
      rcases hij.eq_or_lt with rfl | hlt
      · exact ⟨r, hr, at_r⟩
      · obtain ⟨d, hd⟩ := Option.ne_none_iff_exists'.1 (there j hlt j.lt_succ_self)
        obtain ⟨x, hx, at_x, -⟩ := Database.exists_of_find? hd
        exact ⟨x, hx, at_x⟩
    rw [(h.changed j hj).seq_eq (h.ordered j (by omega)) hx hu at_x at_u]
    exact ih (by omega) (fun k hik hkj => there k hik (by omega)) hx at_x

/-! ## Runs of a scan -/

/-- A scan of a table while the table changes: the writes and pulls since it was opened, on rows in
order as they are in each store that can be reached. It comes with the number of changes so far,
the moments of the pulls as such numbers, what was shown, and the cursor unless the scan is
exhausted. -/
inductive Scanned (setup : Setup) (table : String) (predicate : Term) (history : Nat → Database) :
    Nat → List Nat → List Document → Option Cursor → StoreState → Prop
  | opened {s : StoreState} : (history 0).Ordered → s.database = history 0 →
      Scanned setup table predicate history 0 [] [] (some (Cursor.start table predicate)) s
  | wrote {n : Nat} {pulls : List Nat} {shown : List Document} {c : Cursor} {s t : StoreState} :
      Scanned setup table predicate history n pulls shown (some c) s →
      (history n).Changed (history (n + 1)) → t.database = history (n + 1) →
      Scanned setup table predicate history (n + 1) pulls shown (some c) t
  | pulled {n : Nat} {pulls : List Nat} {shown : List Document} {c next : Cursor}
      {s t : StoreState} {document : Document} :
      Scanned setup table predicate history n pulls shown (some c) s →
      c.pull.exec setup s = (.ok (some (document, next)), t) →
      Scanned setup table predicate history n (pulls ++ [n]) (shown ++ [document]) (some next) t
  | exhausted {n : Nat} {pulls : List Nat} {shown : List Document} {c : Cursor}
      {s t : StoreState} :
      Scanned setup table predicate history n pulls shown (some c) s →
      c.pull.exec setup s = (.ok none, t) →
      Scanned setup table predicate history n (pulls ++ [n]) shown none t

/-- The row was on a page of the table that a pull read at that moment. -/
def Sighting.IsRead (setup : Setup) (table : String) (history : Nat → Database) (pulls : List Nat)
    (a : Sighting) : Prop :=
  a.moment ∈ pulls ∧ ∃ after, a.row ∈ (history a.moment).page table after (some setup.pageSize)

/-- Whatever was called before, the document of a key is there and selected. -/
def Chosen (setup : Setup) (predicate : Term) (db : Database) (table code : String) : Prop :=
  ∃ d, db.find? table code = some d ∧
    ∀ calls, Scan.verdict setup predicate d.toTerm calls = .ok true

/-- What holds of the rows that were shown. -/
structure Sighted (setup : Setup) (table : String) (predicate : Term) (history : Nat → Database)
    (n : Nat) (pulls : List Nat) (sightings : List Sighting) : Prop where
  chronicle : Chronicle history n
  moments : ∀ m ∈ pulls, m ≤ n
  ascending : sightings.Pairwise fun a b => a.row.seq < b.row.seq ∧ a.moment ≤ b.moment
  read : ∀ a ∈ sightings, a.IsRead setup table history pulls ∧
    ∃ calls, Scan.verdict setup predicate a.row.body.toTerm calls = .ok true

/-- What holds of the cursor: its pending rows were all read at one moment, behind what was shown,
and what was there and selected all the time is shown or left. -/
structure Following (setup : Setup) (table : String) (predicate : Term) (history : Nat → Database)
    (n : Nat) (pulls : List Nat) (sightings : List Sighting) (c : Cursor) : Prop where
  scans : c.table = table
  asks : c.predicate = predicate
  ascending : (sightings.map Sighting.row ++ c.pending).Pairwise fun r u => r.seq < u.seq
  behind : ∀ r ∈ sightings.map Sighting.row ++ c.pending, r.seq ≤ c.after
  fetched : ∃ m ≤ n, (∀ a ∈ sightings, a.moment ≤ m) ∧
    ∀ r ∈ c.pending, Sighting.IsRead setup table history pulls ⟨m, r⟩
  covered : ∀ code, (∀ k ≤ n, Chosen setup predicate (history k) table code) →
    (∃ a ∈ sightings, a.row.code = code) ∨ ∃ r ∈ c.rest (history n), r.isAt table code = true

theorem Sighting.IsRead.later {a : Sighting} (h : a.IsRead setup table history pulls) (m : Nat) :
    a.IsRead setup table history (pulls ++ [m]) :=
  ⟨List.mem_append_left _ h.1, h.2⟩

theorem Sighting.IsRead.mem {a : Sighting} (h : a.IsRead setup table history pulls) :
    a.row ∈ (history a.moment).rows ∧ a.row.table = table := by
  obtain ⟨-, after, h⟩ := h
  obtain ⟨h, ht, -⟩ := Database.mem_rowsAfter.1 (List.mem_of_mem_take h)
  exact ⟨h, ht⟩

/-- The row of a document that is chosen is selected. -/
theorem Chosen.selected (h : Chosen setup predicate db table code) (ordered : db.Ordered) {r : Row}
    (hr : r ∈ db.rows) (at_r : r.isAt table code = true) (calls : List Call) :
    Scan.verdict setup predicate r.body.toTerm calls = .ok true := by
  obtain ⟨d, hd, selected⟩ := h
  obtain ⟨x, hx, at_x, rfl⟩ := Database.exists_of_find? hd
  obtain ⟨rfl, rfl⟩ := (Database.isAt_iff r _ _).1 at_r
  rw [ordered.eq_of_isAt hr hx at_x]
  exact selected calls

theorem following_start (ordered : (history 0).Ordered) :
    Following setup table predicate history 0 [] [] (Cursor.start table predicate) where
  scans := rfl
  asks := rfl
  ascending := .nil
  behind _ h := nomatch h
  fetched := ⟨0, le_rfl, by simp, by simp [Cursor.start]⟩
  covered code there := by
    obtain ⟨d, hd, -⟩ := there 0 le_rfl
    obtain ⟨r, hr, at_r, -⟩ := Database.exists_of_find? hd
    have ht := ((Database.isAt_iff r _ _).1 at_r).1
    exact .inr ⟨r, Database.mem_rowsAfter.2 ⟨hr, ht, ordered.positive r hr⟩, at_r⟩

/-- What is left to a cursor stands behind what was shown. -/
theorem Following.rest_ascending (h : Following setup table predicate history n pulls sightings c)
    (ordered : (history n).Ordered) :
    (sightings.map Sighting.row ++ c.rest (history n)).Pairwise fun r u => r.seq < u.seq := by
  rw [Cursor.rest, ← List.append_assoc, List.pairwise_append]
  refine ⟨h.ascending, ?_, ?_⟩
  · split
    · exact Database.rowsAfter_ascending ordered _ _
    · exact .nil
  · intro r hr u hu
    split at hu
    · exact (h.behind r hr).trans_lt (Database.mem_rowsAfter.1 hu).2.2
    · cases hu

/-- What is left to a cursor was in the table at some moment. -/
theorem Following.mem_of_rest (h : Following setup table predicate history n pulls sightings c)
    {r : Row} (hr : r ∈ c.rest (history n)) : ∃ k ≤ n, r ∈ (history k).rows := by
  obtain ⟨m, hm, -, read⟩ := h.fetched
  rcases List.mem_append.1 hr with hr | hr
  · exact ⟨m, hm, (read r hr).mem.1⟩
  · split at hr
    · exact ⟨n, le_rfl, (Database.mem_rowsAfter.1 hr).1⟩
    · cases hr

/-- A document that was chosen all the time is selected whenever it was read. -/
theorem Following.selected_of_rest
    (h : Following setup table predicate history n pulls sightings c)
    (chronicle : Chronicle history n)
    (there : ∀ k ≤ n, Chosen setup predicate (history k) table code) {r : Row}
    (hr : r ∈ c.rest (history n)) (at_r : r.isAt table code = true) (calls : List Call) :
    Scan.verdict setup predicate r.body.toTerm calls = .ok true := by
  obtain ⟨k, hk, hr⟩ := h.mem_of_rest hr
  exact (there k hk).selected (chronicle.ordered k hk) hr at_r calls

/-- A change passes a scan by: the document that is ahead of the cursor keeps its number. -/
theorem Following.wrote (h : Following setup table predicate history n pulls sightings c)
    (ordered : (history n).Ordered) (changed : (history n).Changed (history (n + 1))) :
    Following setup table predicate history (n + 1) pulls sightings c := by
  obtain ⟨m, hm, times, read⟩ := h.fetched
  refine ⟨h.scans, h.asks, h.ascending, h.behind, ⟨m, by omega, times, read⟩, ?_⟩
  intro code there
  rcases h.covered code fun k hk => there k (by omega) with seen | ⟨r, hr, at_r⟩
  · exact .inl seen
  · right
    rcases List.mem_append.1 hr with hr | hr
    · exact ⟨r, List.mem_append_left _ hr, at_r⟩
    · split at hr
      · rename_i more
        obtain ⟨hr, ht, after⟩ := Database.mem_rowsAfter.1 hr
        obtain ⟨d, hd, -⟩ := there (n + 1) le_rfl
        obtain ⟨u, hu, at_u, -⟩ := Database.exists_of_find? hd
        refine ⟨u, List.mem_append_right _ ?_, at_u⟩
        rw [if_pos more]
        refine Database.mem_rowsAfter.2 ⟨hu, ?_, ?_⟩
        · rw [h.scans]
          exact ((Database.isAt_iff u _ _).1 at_u).1
        · rw [changed.seq_eq ordered hr hu at_r at_u]
          exact after
      · cases hr

/-- The row that a pull shows and those pending behind it were read at one moment, which is no
earlier than those of the rows before. -/
theorem Following.read_of_advance {skipped : List Row}
    (h : Following setup table predicate history n pulls sightings c)
    (sighted : Sighted setup table predicate history n pulls sightings)
    (advance : Scan.Advance setup (history n) c next skipped row) :
    ∃ m ≤ n, (∀ a ∈ sightings, a.moment ≤ m) ∧
      ∀ r ∈ row :: next.pending, Sighting.IsRead setup table history (pulls ++ [n]) ⟨m, r⟩ := by
  rcases advance.fetched with here | ⟨after, page⟩
  · obtain ⟨m, hm, times, read⟩ := h.fetched
    exact ⟨m, hm, times, fun r hr => (read r (here r hr)).later n⟩
  · refine ⟨n, le_rfl, fun a ha => ?_, fun r hr => ?_⟩
    · exact sighted.moments a.moment (sighted.read a ha).1.1
    · exact ⟨List.mem_append_right _ (List.mem_singleton_self n), after, h.scans ▸ page r hr⟩

/-- The row that a pull shows and those pending behind it come after what was shown before. -/
theorem Following.ascending_of_advance {skipped : List Row}
    (h : Following setup table predicate history n pulls sightings c)
    (ordered : (history n).Ordered) (advance : Scan.Advance setup (history n) c next skipped row) :
    (sightings.map Sighting.row ++ row :: next.pending).Pairwise fun r u => r.seq < u.seq := by
  have whole := h.rest_ascending ordered
  rw [advance.split] at whole
  have later : (row :: next.pending).Sublist (skipped ++ row :: next.rest (history n)) :=
    ((List.sublist_append_left _ _).cons_cons row).trans (List.sublist_append_right _ _)
  exact whole.sublist (later.append_left (sightings.map Sighting.row))

/-- What is chosen all the time is not skipped. -/
theorem Following.covered_of_advance {skipped : List Row}
    (h : Following setup table predicate history n pulls sightings c)
    (chronicle : Chronicle history n)
    (advance : Scan.Advance setup (history n) c next skipped row) (m : Nat)
    (there : ∀ k ≤ n, Chosen setup predicate (history k) table code) :
    (∃ a ∈ sightings ++ [⟨m, row⟩], a.row.code = code) ∨
      ∃ r ∈ next.rest (history n), r.isAt table code = true := by
  rcases h.covered code there with ⟨a, ha, seen⟩ | ⟨r, hr, at_r⟩
  · exact .inl ⟨a, List.mem_append_left _ ha, seen⟩
  · have selected := h.selected_of_rest chronicle there hr at_r
    rw [advance.split] at hr
    rcases List.mem_append.1 hr with hr | hr
    · obtain ⟨calls, unselected⟩ := advance.skipped r hr
      rw [h.asks, selected] at unselected
      cases unselected
    · rcases List.mem_cons.1 hr with rfl | hr
      · exact .inl ⟨⟨m, r⟩, List.mem_append_right _ (List.mem_singleton_self _),
          ((Database.isAt_iff r _ _).1 at_r).2⟩
      · exact .inr ⟨r, hr, at_r⟩

/-- A row more is shown. -/
theorem Sighted.append {a : Sighting}
    (h : Sighted setup table predicate history n pulls sightings)
    (behind : ∀ b ∈ sightings, b.row.seq < a.row.seq ∧ b.moment ≤ a.moment)
    (read : a.IsRead setup table history (pulls ++ [n]))
    (selected : ∃ calls, Scan.verdict setup predicate a.row.body.toTerm calls = .ok true) :
    Sighted setup table predicate history n (pulls ++ [n]) (sightings ++ [a]) := by
  refine ⟨h.chronicle, fun k hk => ?_, ?_, fun b hb => ?_⟩
  · rcases List.mem_append.1 hk with hk | hk
    · exact h.moments k hk
    · rw [List.mem_singleton.1 hk]
  · rw [List.pairwise_append]
    refine ⟨h.ascending, List.pairwise_singleton _ _, fun b hb x hx => ?_⟩
    rw [List.mem_singleton.1 hx]
    exact behind b hb
  · rcases List.mem_append.1 hb with hb | hb
    · exact ⟨(h.read b hb).1.later n, (h.read b hb).2⟩
    · rw [List.mem_singleton.1 hb]
      exact ⟨read, selected⟩

/-- A pull shows one more row, and leaves what is behind it. -/
theorem Following.pulled {skipped : List Row}
    (h : Following setup table predicate history n pulls sightings c)
    (sighted : Sighted setup table predicate history n pulls sightings)
    (advance : Scan.Advance setup (history n) c next skipped row) :
    ∃ m, Sighted setup table predicate history n (pulls ++ [n]) (sightings ++ [⟨m, row⟩]) ∧
      Following setup table predicate history n (pulls ++ [n]) (sightings ++ [⟨m, row⟩]) next := by
  obtain ⟨m, hm, times, read⟩ := h.read_of_advance sighted advance
  have ascending := h.ascending_of_advance (sighted.chronicle.ordered n le_rfl) advance
  have before : ∀ a ∈ sightings, a.row.seq < row.seq := fun a ha =>
    (List.pairwise_append.1 ascending).2.2 _ (List.mem_map_of_mem ha) _ List.mem_cons_self
  refine ⟨m, sighted.append (fun a ha => ⟨before a ha, times a ha⟩) (read row List.mem_cons_self)
    (h.asks ▸ advance.selected), advance.table.trans h.scans, advance.predicate.trans h.asks, ?_,
    fun r hr => ?_, ⟨m, hm, fun a ha => ?_, fun r hr => read r (List.mem_cons_of_mem row hr)⟩,
    fun code there => h.covered_of_advance sighted.chronicle advance m there⟩
  · rwa [List.map_append, List.append_assoc]
  · rw [List.map_append, List.append_assoc] at hr
    rcases List.mem_append.1 hr with hr | hr
    · obtain ⟨a, ha, rfl⟩ := List.mem_map.1 hr
      exact (before a ha).le.trans (advance.behind row List.mem_cons_self)
    · exact advance.behind r hr
  · rcases List.mem_append.1 ha with ha | ha
    · exact times a ha
    · rw [List.mem_singleton.1 ha]

/-- Where no row that is left is selected, whatever was there and selected all the time is shown. -/
theorem Following.exhausted (h : Following setup table predicate history n pulls sightings c)
    (chronicle : Chronicle history n) (unselected : ∀ r ∈ c.rest (history n), ∃ calls,
      Scan.verdict setup c.predicate r.body.toTerm calls = .ok false)
    (there : ∀ k ≤ n, Chosen setup predicate (history k) table code) :
    ∃ a ∈ sightings, a.row.code = code := by
  refine (h.covered code there).resolve_right ?_
  rintro ⟨r, hr, at_r⟩
  obtain ⟨calls, hf⟩ := unselected r hr
  rw [h.asks, h.selected_of_rest chronicle there hr at_r] at hf
  cases hf

/-- The run of a scan keeps what holds of the rows that were shown and of the cursor. -/
theorem Scanned.followed {c : Option Cursor} (hp : 0 < setup.pageSize)
    (h : Scanned setup table predicate history n pulls shown c s) :
    s.database = history n ∧ ∃ sightings : List Sighting,
      (sightings.map fun a => a.row.body) = shown ∧
      Sighted setup table predicate history n pulls sightings ∧
      match c with
      | some c => Following setup table predicate history n pulls sightings c
      | none => ∀ code, (∀ k ≤ n, Chosen setup predicate (history k) table code) →
          ∃ a ∈ sightings, a.row.code = code := by
  induction h with
  | opened ordered hs =>
    refine ⟨hs, [], rfl, ⟨⟨fun k hk => ?_, fun k hk => absurd hk k.not_lt_zero⟩, by simp, .nil,
      by simp⟩, following_start ordered⟩
    rwa [Nat.le_zero.1 hk]
  | wrote _ changed ht ih =>
    obtain ⟨-, sightings, bodies, sighted, following⟩ := ih
    refine ⟨ht, sightings, bodies, ⟨sighted.chronicle.succ changed,
      fun m hm => (sighted.moments m hm).trans (Nat.le_succ _), sighted.ascending, sighted.read⟩,
      following.wrote (sighted.chronicle.ordered _ le_rfl) changed⟩
  | @pulled n pulls shown c next s t document _ pull ih =>
    obtain ⟨hs, sightings, rfl, sighted, following⟩ := ih
    have ended := c.pull_shows hp (hs ▸ sighted.chronicle.ordered n le_rfl)
      fun r hr => following.behind r (List.mem_append_right _ hr)
    unfold Ensures at ended
    rw [pull] at ended
    obtain ⟨ht, skipped, row, rfl, advance⟩ := ended
    rw [hs] at advance
    obtain ⟨m, sighted, following⟩ := following.pulled sighted advance
    exact ⟨ht.trans hs, _, List.map_append, sighted, following⟩
  | @exhausted n pulls shown c s t _ pull ih =>
    obtain ⟨hs, sightings, rfl, sighted, following⟩ := ih
    have ended := c.pull_shows hp (hs ▸ sighted.chronicle.ordered n le_rfl)
      fun r hr => following.behind r (List.mem_append_right _ hr)
    unfold Ensures at ended
    rw [pull] at ended
    obtain ⟨ht, unselected⟩ := ended
    rw [hs] at unselected
    exact ⟨ht.trans hs, sightings, rfl, ⟨sighted.chronicle, fun m hm => by
        rcases List.mem_append.1 hm with hm | hm
        · exact sighted.moments m hm
        · rw [List.mem_singleton.1 hm], sighted.ascending, fun a ha =>
          ⟨(sighted.read a ha).1.later n, (sighted.read a ha).2⟩⟩,
      fun code there => following.exhausted sighted.chronicle unselected there⟩

/-- A row that is shown twice was taken out of the table between the two pages it was on. -/
theorem Sighted.gone_between (h : Sighted setup table predicate history n pulls sightings) :
    sightings.Pairwise fun a b => a.row.code = b.row.code →
      ∃ k, a.moment < k ∧ k < b.moment ∧ (history k).find? table a.row.code = none := by
  refine h.ascending.imp_of_mem fun {a b} ha hb before same => ?_
  by_contra! there
  obtain ⟨reada, -⟩ := h.read a ha
  obtain ⟨readb, -⟩ := h.read b hb
  have seq := h.chronicle.seq_eq before.2 (h.moments _ readb.1) there reada.mem.1 readb.mem.1
    ((Database.isAt_iff _ _ _).2 ⟨reada.mem.2, rfl⟩)
    ((Database.isAt_iff _ _ _).2 ⟨readb.mem.2, same.symm⟩)
  omega

/-- What is there all the time is shown at most once. -/
theorem Sighted.countP_le_one (h : Sighted setup table predicate history n pulls sightings)
    (there : ∀ k ≤ n, (history k).find? table code ≠ none) :
    sightings.countP (fun a => decide (a.row.code = code)) ≤ 1 := by
  have none : (sightings.filter fun a => decide (a.row.code = code)).Pairwise
      fun _ _ => False := by
    refine (h.gone_between.filter _).imp_of_mem fun {a b} ha hb gone => ?_
    obtain ⟨-, rfl⟩ := List.mem_filter.1 ha |>.imp_right of_decide_eq_true
    obtain ⟨hb, same⟩ := List.mem_filter.1 hb |>.imp_right of_decide_eq_true
    obtain ⟨k, -, hk, gone⟩ := gone same.symm
    exact there k (hk.le.trans (h.moments _ (h.read b hb).1.1)) gone
  rw [List.countP_eq_length_filter]
  generalize sightings.filter (fun a => decide (a.row.code = code)) = twice at none
  match twice, none with
  | [], _ => exact Nat.zero_le 1
  | [_], _ => exact le_rfl
  | a :: b :: _, none => exact (List.rel_of_pairwise_cons none List.mem_cons_self).elim

/-- A scan while documents are written and removed. The rows that are shown ascend by their numbers,
and one is shown twice only if its document was removed between the two pages that it was on. Each
was on a page of its table that a pull read, and selected. A scan that is exhausted has shown each
document that was there and selected all the time exactly once. And as long as the predicate does
not raise and no fault strikes, a pull answers. -/
theorem Scanned.faithful {c : Option Cursor} (hp : 0 < setup.pageSize)
    (h : Scanned setup table predicate history n pulls shown c s) :
    ∃ sightings : List Sighting, (sightings.map fun a => a.row.body) = shown ∧
      (sightings.Pairwise fun a b => a.row.seq < b.row.seq ∧ (a.row.code = b.row.code →
        ∃ k, a.moment < k ∧ k < b.moment ∧ (history k).find? table a.row.code = none)) ∧
      (∀ a ∈ sightings, a.IsRead setup table history pulls ∧
        ∃ calls, Scan.verdict setup predicate a.row.body.toTerm calls = .ok true) ∧
      (c = none → ∀ code, (∀ k ≤ n, Chosen setup predicate (history k) table code) →
        sightings.countP (fun a => decide (a.row.code = code)) = 1) ∧
      ∀ cursor, c = some cursor → s.faults = [] →
        (∀ document calls, ∃ b, Scan.verdict setup predicate document calls = .ok b) →
          ∃ found, (cursor.pull.exec setup s).1 = .ok found := by
  obtain ⟨hs, sightings, bodies, sighted, ended⟩ := h.followed hp
  refine ⟨sightings, bodies, ?_, sighted.read, ?_, ?_⟩
  · exact (sighted.ascending.imp And.left).and sighted.gone_between
  · rintro rfl code there
    refine le_antisymm (sighted.countP_le_one fun k hk => ?_) ?_
    · obtain ⟨d, hd, -⟩ := there k hk
      rw [hd]
      exact Option.some_ne_none d
    · obtain ⟨a, ha, seen⟩ := ended code there
      exact List.countP_pos_iff.2 ⟨a, ha, decide_eq_true seen⟩
  · rintro cursor rfl unharmed decided
    exact cursor.pull_answers hp (hs ▸ sighted.chronicle.ordered n le_rfl) unharmed
      (ended.asks ▸ decided)

end History

/-! ## A document that returns -/

/-- A document that holds its key and nothing else. -/
def Document.keyed (key : Int) : Document := [("id", .scalar (.number (.int key)))]

/-- A table with two documents. -/
def Database.pair : Database :=
  ⟨[("people", "id")], [⟨1, "people", "1", .keyed 1⟩, ⟨2, "people", "2", .keyed 2⟩]⟩

/-- The first of two documents is removed and then added again. -/
def returning : Nat → Database
  | 0 => .pair
  | 1 => Database.pair.remove "people" "1"
  | _ => (Database.pair.remove "people" "1").write "people" "1" (.keyed 1)

/-- A scan with pages of one row shows the document twice, and the other one once. -/
theorem Scanned.faithful_returning : ∃ s,
    Scanned { Setup.echo with pageSize := 1 } "people" .null returning 2 [0, 2, 2, 2]
        [.keyed 1, .keyed 2, .keyed 1] none s ∧
      ∃ sightings : List Sighting,
        (sightings.map fun a => a.row.body) = [.keyed 1, .keyed 2, .keyed 1] ∧
        sightings.countP (fun a => decide (a.row.code = "2")) = 1 := by
  let setup : Setup := { Setup.echo with pageSize := 1 }
  let state (k operations : Nat) : StoreState :=
    { StoreState.empty with database := returning k, operations }
  let behind (n : Nat) : Cursor := ⟨"people", .null, n, [], true⟩
  have ordered : (returning 0).Ordered := by
    constructor <;> decide
  have removed : (returning 0).Changed (returning 1) := ⟨"people", "1", .inr rfl⟩
  have added : (returning 1).Changed (returning 2) := ⟨"people", "1", .inl ⟨_, rfl⟩⟩
  have start : (state 0 0).database = returning 0 := rfl
  have first : (behind 0).pull.exec setup (state 0 0) =
    (.ok (some (.keyed 1, behind 1)), state 0 1) := rfl
  have without : (state 1 1).database = returning 1 := rfl
  have back : (state 2 1).database = returning 2 := rfl
  have second : (behind 1).pull.exec setup (state 2 1) =
    (.ok (some (.keyed 2, behind 2)), state 2 2) := rfl
  have again : (behind 2).pull.exec setup (state 2 2) =
    (.ok (some (.keyed 1, behind 3)), state 2 3) := rfl
  have last : (behind 3).pull.exec setup (state 2 3) = (.ok none, state 2 4) := rfl
  have run := ((((((Scanned.opened ordered start).pulled first).wrote removed without).wrote added
    back).pulled second).pulled again).exhausted last
  have there : ∀ k ≤ 2, Chosen setup .null (returning k) "people" "2" := by
    intro k hk
    refine ⟨.keyed 2, ?_, fun _ => rfl⟩
    match k, hk with
    | 0, _ | 1, _ | 2, _ => rfl
  obtain ⟨sightings, bodies, -, -, once, -⟩ := Scanned.faithful (by decide) run
  exact ⟨_, run, sightings, bodies, once rfl "2" there⟩

end Folio
