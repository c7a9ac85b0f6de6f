import Folio.Proofs.Frames
import Folio.Proofs.Rows
/-!
# Scans as one pass

A scan reads its table page by page, and calls its predicate row by row. As long as nothing writes
in between, that is one pass over the rows of the table in their order: what a cursor has left to
show are its pending rows and the rows behind them, and a pull takes the first of these that the
predicate selects. The pages that a pull may read are never too few.
-/

namespace Folio

open Run StoreState

variable {α : Type} {setup : Setup} {s t : StoreState} {db : Database}

/-! ## Pages -/

/-- Behind the first rows are the rows with larger numbers than the last of them. -/
theorem filter_last {rows : List Row} {n last : Nat}
    (h : rows.Pairwise fun r s => r.seq < s.seq)
    (hl : (rows.take n).getLast?.map Row.seq = some last) :
    rows.filter (fun r => decide (last < r.seq)) = rows.drop n := by
  obtain ⟨x, hx, rfl⟩ := Option.map_eq_some_iff.1 hl
  obtain ⟨front, hfront⟩ := List.getLast?_eq_some_iff.1 hx
  have split : front ++ [x] ++ rows.drop n = rows := by rw [← hfront, List.take_append_drop]
  rw [← split] at h
  obtain ⟨hf, -, hb⟩ := List.pairwise_append.1 h
  have before : (front ++ [x]).filter (fun r => decide (x.seq < r.seq)) = [] := by
    refine List.filter_eq_nil_iff.2 fun r hr => ?_
    rw [decide_eq_true_eq]
    rcases List.mem_append.1 hr with hr | hr
    · have := (List.pairwise_append.1 hf).2.2 r hr x (List.mem_singleton_self x)
      omega
    · rw [List.mem_singleton.1 hr]
      omega
  have behind : (rows.drop n).filter (fun r => decide (x.seq < r.seq)) = rows.drop n :=
    List.filter_eq_self.2 fun r hr =>
      decide_eq_true (hb x (List.mem_append_right _ (List.mem_singleton_self x)) r hr)
  conv_lhs => rw [← split, List.filter_append, before, behind]
  rfl

namespace Database

theorem rowsAfter_ascending (h : db.Ordered) (table : String) (after : Nat) :
    (db.rowsAfter table after).Pairwise fun r s => r.seq < s.seq :=
  h.ascending.filter _

theorem mem_rowsAfter {table : String} {after : Nat} {r : Row} :
    r ∈ db.rowsAfter table after ↔ r ∈ db.rows ∧ r.table = table ∧ after < r.seq := by
  simp [rowsAfter]

/-- A scan that starts at the beginning sees every row of its table. -/
theorem Ordered.rowsAfter_zero (h : db.Ordered) (table : String) :
    db.rowsAfter table 0 = db.rows.filter fun r => r.table == table := by
  refine List.filter_congr fun r hr => ?_
  rw [decide_eq_true (h.positive r hr), Bool.and_true]

theorem length_rowsAfter_le (table : String) (after : Nat) :
    (db.rowsAfter table after).length ≤ db.rows.length :=
  List.length_filter_le _ _

end Database

namespace Cursor

/-- The rows that a scan has still to look at. -/
def rest (c : Cursor) (db : Database) : List Row :=
  c.pending ++ if c.more then db.rowsAfter c.table c.after else []

/-- The number of rows that a scan has still to fetch, and one more for the page that finds none. -/
def unread (c : Cursor) (db : Database) : Nat :=
  if c.more then (db.rowsAfter c.table c.after).length + 1 else 0

/-- Turning a page neither skips nor repeats a row, and a full page leaves fewer rows unread. -/
theorem rest_turn (h : db.Ordered) {pageSize : Nat} (hp : 0 < pageSize) {c : Cursor}
    (hc : c.more = true) :
    (Scan.turn c pageSize (db.page c.table c.after (some pageSize))).rest db =
        db.rowsAfter c.table c.after ∧
      (Scan.turn c pageSize (db.page c.table c.after (some pageSize))).unread db <
        c.unread db := by
  have ascending := db.rowsAfter_ascending h c.table c.after
  simp only [Scan.turn, rest, unread, Database.page, hc, if_true, List.length_take,
    decide_eq_true_eq]
  by_cases full : pageSize ≤ (db.rowsAfter c.table c.after).length
  · -- The next page starts behind the last row of this one.
    obtain ⟨last, hl⟩ : ∃ last,
        ((db.rowsAfter c.table c.after).take pageSize).getLast?.map Row.seq = some last := by
      rw [← Option.isSome_iff_exists, Option.isSome_map, List.getLast?_isSome]
      intro nil
      rw [List.take_eq_nil_iff] at nil
      rcases nil with nil | nil
      · omega
      · rw [nil, List.length_nil] at full
        omega
    have behind : db.rowsAfter c.table last = (db.rowsAfter c.table c.after).drop pageSize := by
      rw [← filter_last ascending hl]
      obtain ⟨x, hx, rfl⟩ := Option.map_eq_some_iff.1 hl
      have hx := List.mem_of_mem_take (List.mem_of_getLast? hx)
      have := (Database.mem_rowsAfter.1 hx).2.2
      unfold Database.rowsAfter
      rw [List.filter_filter]
      refine List.filter_congr fun r _ => ?_
      rw [Bool.eq_iff_iff]
      simp only [Bool.and_eq_true, decide_eq_true_eq]
      exact ⟨fun ⟨ht, hs⟩ => ⟨hs, ht, by omega⟩, fun ⟨hs, ht, _⟩ => ⟨ht, hs⟩⟩
    have full' : pageSize ≤ min pageSize (db.rowsAfter c.table c.after).length := by omega
    rw [hl, Option.getD_some, if_pos full', if_pos full', behind, List.take_append_drop,
      List.length_drop]
    exact ⟨rfl, by omega⟩
  · have part : ¬ pageSize ≤ min pageSize (db.rowsAfter c.table c.after).length := by omega
    rw [if_neg part, if_neg part, List.append_nil, List.take_of_length_le (by omega)]
    exact ⟨rfl, by omega⟩

end Cursor

/-! ## What a pass finds -/

namespace Scan

/-- The calls after a predicate was asked about a document. -/
def asking (predicate document : Term) (calls : List Call) : List Call :=
  match predicate.callable? with
  | some f => calls ++ [⟨f, [document]⟩]
  | none => calls

/-- What a predicate says about a document; a function knows the calls so far. -/
def verdict (setup : Setup) (predicate document : Term) (calls : List Call) :
    Except Failure Bool :=
  match predicate.callable? with
  | some f => Predicate.ofAnswer (setup.functions calls f [document])
  | none => Predicate.selects predicate document

/-- The rows that a predicate selects when it is asked about one after the other. -/
def matching (setup : Setup) (predicate : Term) : List Call → List Row → List Row
  | _, [] => []
  | calls, row :: rest =>
    let calls := asking predicate row.body.toTerm calls
    match verdict setup predicate row.body.toTerm calls with
    | .ok true => row :: matching setup predicate calls rest
    | _ => matching setup predicate calls rest

/-- The first row that a predicate selects, with the rows behind it and the calls by then. -/
def first (setup : Setup) (predicate : Term) :
    List Call → List Row → Except Failure (Option (Document × List Row)) × List Call
  | calls, [] => (.ok none, calls)
  | calls, row :: rest =>
    let calls := asking predicate row.body.toTerm calls
    match verdict setup predicate row.body.toTerm calls with
    | .error f => (.error f, calls)
    | .ok true => (.ok (some (row.body, rest)), calls)
    | .ok false => first setup predicate calls rest

/-- Reads something off each selected row, in one pass. -/
def pass (setup : Setup) (predicate : Term) (readOff : Document → Except Failure α) :
    List Call → List Row → Except Failure (List α)
  | _, [] => .ok []
  | calls, row :: rest =>
    let calls := asking predicate row.body.toTerm calls
    match verdict setup predicate row.body.toTerm calls with
    | .error f => .error f
    | .ok true => do
      let a ← readOff row.body
      let as ← pass setup predicate readOff calls rest
      return a :: as
    | .ok false => pass setup predicate readOff calls rest

/-- The calls after a pass, which ends early where something fails. -/
def called (setup : Setup) (predicate : Term) (readOff : Document → Except Failure α) :
    List Call → List Row → List Call
  | calls, [] => calls
  | calls, row :: rest =>
    let calls := asking predicate row.body.toTerm calls
    match verdict setup predicate row.body.toTerm calls with
    | .error _ => calls
    | .ok true =>
      match readOff row.body with
      | .ok _ => called setup predicate readOff calls rest
      | .error _ => calls
    | .ok false => called setup predicate readOff calls rest

variable {readOff : Document → Except Failure α}

theorem matching_sublist (predicate : Term) (calls : List Call) (rows : List Row) :
    (matching setup predicate calls rows).Sublist rows := by
  induction rows generalizing calls with
  | nil => exact .slnil
  | cons row rows ih =>
    rw [matching]
    split
    · exact (ih _).cons_cons row
    · exact (ih _).cons row

/-- A predicate that is no function is asked about each row on its own. -/
theorem verdict_of_pure {predicate : Term} (h : predicate.callable? = none) (document : Term)
    (calls : List Call) :
    verdict setup predicate document (asking predicate document calls) =
        Predicate.selects predicate document ∧
      asking predicate document calls = calls := by
  unfold verdict asking
  rw [h]
  exact ⟨rfl, rfl⟩

/-- A predicate that is no function selects each row on its own. -/
theorem matching_of_pure {predicate : Term} (h : predicate.callable? = none) (calls : List Call)
    (rows : List Row) : matching setup predicate calls rows =
      rows.filter fun r => (Predicate.selects predicate r.body.toTerm).toOption == some true := by
  induction rows with
  | nil => rfl
  | cons row rows ih =>
    obtain ⟨said, asked⟩ := @verdict_of_pure setup predicate h row.body.toTerm calls
    rw [matching]
    rw [said, asked, ih, List.filter_cons]
    rcases Predicate.selects predicate row.body.toTerm with f | (_ | _) <;> rfl

/-- The null predicate selects every row. -/
theorem matching_null (calls : List Call) (rows : List Row) :
    matching setup .null calls rows = rows := by
  rw [matching_of_pure rfl, List.filter_eq_self]
  intro r _
  rfl

/-- What a pass reads off comes from the selected rows, one for one. -/
theorem of_pass {predicate : Term} {calls : List Call} {rows : List Row} {as : List α}
    (h : pass setup predicate readOff calls rows = .ok as) :
    List.Forall₂ (fun r a => readOff r.body = .ok a) (matching setup predicate calls rows) as := by
  induction rows generalizing calls as with
  | nil =>
    cases h
    exact .nil
  | cons row rows ih =>
    rw [pass] at h
    rw [matching]
    generalize verdict setup predicate row.body.toTerm
      (asking predicate row.body.toTerm calls) = said at h ⊢
    rcases said with f | (_ | _)
    · cases h
    · exact ih h
    · obtain ⟨a, hr, h⟩ := exists_of_bind_ok h
      obtain ⟨rest, hrest, h⟩ := exists_of_bind_ok h
      cases h
      exact .cons hr (ih hrest)

/-- A pass goes from one selected row to the next. -/
theorem pass_eq_first (predicate : Term) (calls : List Call) (rows : List Row) :
    pass setup predicate readOff calls rows = match first setup predicate calls rows with
      | (.error f, _) => .error f
      | (.ok none, _) => .ok []
      | (.ok (some (document, rest)), later) => do
        let a ← readOff document
        let as ← pass setup predicate readOff later rest
        return a :: as := by
  induction rows generalizing calls with
  | nil => rfl
  | cons row rows ih =>
    rw [pass, first]
    rcases verdict setup predicate row.body.toTerm
      (asking predicate row.body.toTerm calls) with f | (_ | _)
    · rfl
    · exact ih _
    · rfl

theorem called_eq_first (predicate : Term) (calls : List Call) (rows : List Row) :
    called setup predicate readOff calls rows = match first setup predicate calls rows with
      | (.ok (some (document, rest)), later) =>
        match readOff document with
        | .ok _ => called setup predicate readOff later rest
        | .error _ => later
      | (_, later) => later := by
  induction rows generalizing calls with
  | nil => rfl
  | cons row rows ih =>
    rw [called, first]
    rcases verdict setup predicate row.body.toTerm
      (asking predicate row.body.toTerm calls) with f | (_ | _)
    · rfl
    · exact ih _
    · rfl

/-- The first selected row of one list behind another. -/
theorem first_append (predicate : Term) (calls : List Call) (rows more : List Row) :
    first setup predicate calls (rows ++ more) = match first setup predicate calls rows with
      | (.error f, later) => (.error f, later)
      | (.ok none, later) => first setup predicate later more
      | (.ok (some (document, rest)), later) => (.ok (some (document, rest ++ more)), later) := by
  induction rows generalizing calls with
  | nil => rfl
  | cons row rows ih =>
    rw [List.cons_append, first, first]
    rcases verdict setup predicate row.body.toTerm
      (asking predicate row.body.toTerm calls) with f | (_ | _)
    · rfl
    · exact ih _
    · rfl

theorem length_of_first {predicate : Term} {calls later : List Call} {rows rest : List Row}
    {document : Document}
    (h : first setup predicate calls rows = (.ok (some (document, rest)), later)) :
    rest.length < rows.length := by
  induction rows generalizing calls with
  | nil => cases h
  | cons row rows ih =>
    rw [first] at h
    split at h
    · cases h
    · cases h
      exact Nat.lt_succ_self _
    · exact Nat.lt_succ_of_lt (ih h)

/-! ## Pulls -/

theorem exec_selects (predicate document : Term) :
    (selects predicate document).exec setup s =
      (verdict setup predicate document (asking predicate document s.calls),
        { s with calls := asking predicate document s.calls }) := by
  unfold selects verdict asking
  cases predicate.callable? with
  | none => exact exec_ofExcept _ _ _
  | some f =>
    dsimp only
    rw [exec_bind]
    exact exec_ofExcept _ _ _

theorem exec_firstSelected (predicate : Term) (rows : List Row) :
    (firstSelected predicate rows).exec setup s =
      ((first setup predicate s.calls rows).1,
        { s with calls := (first setup predicate s.calls rows).2 }) := by
  induction rows generalizing s with
  | nil => rfl
  | cons row rows ih =>
    rw [firstSelected, exec_bind, exec_selects, first]
    rcases verdict setup predicate row.body.toTerm
      (asking predicate row.body.toTerm s.calls) with f | (_ | _)
    · rfl
    · exact ih
    · rfl

/-- A page is fetched as it is, unless a fault strikes. -/
theorem fetchPage_ends (table : String) (after : Nat) (limit : Option Nat) :
    Ensures setup s (Run.session (Session.fetchPage table after limit)) fun r t =>
      Ticked s t ∧ match r with
        | .ok rows => rows = s.database.page table after limit
        | .error _ => s.faults ≠ [] := by
  have struck : ∀ f ∈ s.faults, s.faults ≠ [] := fun _ hf => List.ne_nil_of_mem hf
  refine Ensures.reporting (Ensures.transaction (fun f hf _ => ⟨refl s, struck f hf⟩) ?_)
  refine Ensures.faulty ?_ (fun f hf _ => ⟨(ticked_tick s).restored, struck f hf⟩) ?_
  · exact ⟨⟨ticked_tick s, rfl⟩, fun f hf _ => ⟨(ticked_tick s).restored, struck f hf⟩⟩
  · rintro f hf - - rows t ⟨⟨ht, -⟩, -⟩
    exact ⟨ht.restored, struck f hf⟩

/-- What a pull comes to, as against the first selected row of those that are left. -/
def Pulls (db : Database) (c : Cursor) :
    Except Failure (Option (Document × List Row)) → Except Failure (Option (Document × Cursor)) →
      Prop
  | .ok (some (document, rows)), result =>
    ∃ next, result = .ok (some (document, next)) ∧ next.rest db = rows ∧
      next.predicate = c.predicate
  | .ok none, result => result = .ok none
  | .error f, result => result = .error f

theorem pullWithin_ends (hp : 0 < setup.pageSize) (h : db.Ordered) {pages : Nat} {c : Cursor}
    (hs : s.database = db) (enough : c.unread db < pages) :
    Ensures setup s (pullWithin pages c) fun r t => (s.faults ≠ [] ∧ ∃ f, r = .error f) ∨
      (Quiet s t ∧ t.calls = (first setup c.predicate s.calls (c.rest db)).2 ∧
        Pulls db c (first setup c.predicate s.calls (c.rest db)).1 r) := by
  induction pages generalizing c s with
  | zero => omega
  | succ pages ih =>
    rw [pullWithin, Cursor.rest, first_append]
    refine Ensures.bind (P := fun r t => r = (first setup c.predicate s.calls c.pending).1 ∧
      t = { s with calls := (first setup c.predicate s.calls c.pending).2 }) ?_ ?_ ?_
    · unfold Ensures
      rw [exec_firstSelected]
      exact ⟨rfl, rfl⟩
    · rintro found _ ⟨hfound, rfl⟩
      generalize first setup c.predicate s.calls c.pending = ended at hfound ⊢
      obtain ⟨r, calls⟩ := ended
      subst hfound
      rcases found with _ | ⟨document, rows⟩
      · -- The pending rows are used up, and the pass goes on with the next page.
        dsimp only
        cases hm : c.more with
        | false => exact .inr ⟨⟨rfl, rfl, rfl, rfl⟩, rfl, rfl⟩
        | true =>
          obtain ⟨rest, fewer⟩ := Cursor.rest_turn h hp hm
          refine ensures_read (Ensures.bind (fetchPage_ends _ _ _) ?_ ?_)
          · rintro rows t ⟨⟨n, rfl⟩, hrows⟩
            dsimp only at hrows
            rw [hs] at hrows
            subst hrows
            have next := ih (s := { s with operations := n, calls := calls })
              (c := turn c setup.pageSize (db.page c.table c.after (some setup.pageSize))) hs
              (by omega)
            rw [rest] at next
            refine next.mono fun r t ended => ?_
            exact ended.imp_right fun ⟨quiet, ended⟩ =>
              ⟨⟨quiet.database, quiet.hooks, quiet.locks, quiet.faults⟩, ended⟩
          · exact fun f t failed => .inl ⟨failed.2, f, rfl⟩
      · exact .inr ⟨⟨rfl, rfl, rfl, rfl⟩, rfl, _, rfl, rfl, rfl⟩
    · rintro f _ ⟨hfound, rfl⟩
      generalize first setup c.predicate s.calls c.pending = ended at hfound ⊢
      obtain ⟨r, calls⟩ := ended
      subst hfound
      exact .inr ⟨⟨rfl, rfl, rfl, rfl⟩, rfl, rfl⟩

end Scan

namespace Cursor

/-- A pull takes the first selected row of those that are left. -/
theorem pull_ends (hp : 0 < setup.pageSize) (h : s.database.Ordered) (c : Cursor) :
    Ensures setup s c.pull fun r t => (s.faults ≠ [] ∧ ∃ f, r = .error f) ∨
      (Quiet s t ∧ t.calls = (Scan.first setup c.predicate s.calls (c.rest s.database)).2 ∧
        Scan.Pulls s.database c
          (Scan.first setup c.predicate s.calls (c.rest s.database)).1 r) := by
  refine ensures_get (Scan.pullWithin_ends hp h rfl ?_)
  have : (s.database.rowsAfter c.table c.after).length ≤ s.database.rows.length :=
    Database.length_rowsAfter_le c.table c.after
  unfold Cursor.unread
  split <;> omega

/-! ## Whole scans -/

variable {readOff : Document → Except Failure α}

theorem collectWithin_ends (hp : 0 < setup.pageSize) (h : s.database.Ordered) {documents : Nat}
    {c : Cursor} (enough : (c.rest s.database).length < documents) :
    Ensures setup s (collectWithin readOff documents c) fun r t =>
      (s.faults ≠ [] ∧ ∃ f, r = .error f) ∨ (Quiet s t ∧
        t.calls = Scan.called setup c.predicate readOff s.calls (c.rest s.database) ∧
          r = Scan.pass setup c.predicate readOff s.calls (c.rest s.database)) := by
  induction documents generalizing c s with
  | zero => omega
  | succ documents ih =>
    rw [Scan.pass_eq_first, Scan.called_eq_first]
    refine Ensures.bind (c.pull_ends hp h) ?_ ?_
    · rintro found t (⟨-, f, hf⟩ | ⟨quiet, calls, pulls⟩)
      · cases hf
      · generalize hx : Scan.first setup c.predicate s.calls (c.rest s.database) = ended at *
        obtain ⟨r, later⟩ := ended
        rcases r with f | _ | ⟨document, rows⟩
        · cases pulls
        · cases pulls
          exact .inr ⟨quiet, calls, rfl⟩
        · obtain ⟨next, hnext, hrest, hpred⟩ := pulls
          cases hnext
          -- The cursor stands behind the document now, and so fewer rows are left.
          have shorter := Scan.length_of_first hx
          have later := @ih t (quiet.database ▸ h) next (by rw [quiet.database, hrest]; omega)
          rw [quiet.database, hrest, hpred, quiet.faults, calls] at later
          refine ensures_ofExcept_bind ?_ ?_
          · intro a ha
            dsimp only
            rw [ha]
            refine Ensures.bind later ?_ ?_
            · rintro rest u (⟨-, f, hf⟩ | ⟨more, calls, ended⟩)
              · cases hf
              · exact .inr ⟨IsTrans.trans _ _ _ quiet more, calls, by rw [← ended]; rfl⟩
            · rintro f u (failed | ⟨more, calls, ended⟩)
              · exact .inl failed
              · exact .inr ⟨IsTrans.trans _ _ _ quiet more, calls, by rw [← ended]; rfl⟩
          · intro f hf
            dsimp only
            rw [hf]
            exact .inr ⟨quiet, calls, rfl⟩
    · rintro f t (⟨faulty, -⟩ | ⟨quiet, calls, pulls⟩)
      · exact .inl ⟨faulty, f, rfl⟩
      · generalize Scan.first setup c.predicate s.calls (c.rest s.database) = ended at *
        obtain ⟨r, later⟩ := ended
        rcases r with g | _ | ⟨document, rows⟩
        · cases pulls
          exact .inr ⟨quiet, calls, rfl⟩
        · cases pulls
        · obtain ⟨_, hnext, -⟩ := pulls
          cases hnext

/-- A scan of a table is one pass over its rows, unless a fault keeps it from that. -/
theorem collect_ends (hp : 0 < setup.pageSize) (h : s.database.Ordered) (table : String)
    (predicate : Term) :
    Ensures setup s ((start table predicate).collect readOff) fun r t =>
      (s.faults ≠ [] ∧ ∃ f, r = .error f) ∨ (Quiet s t ∧
        t.calls = Scan.called setup predicate readOff s.calls
          (s.database.rows.filter fun r => r.table == table) ∧
        r = Scan.pass setup predicate readOff s.calls
          (s.database.rows.filter fun r => r.table == table)) := by
  have rest : (start table predicate).rest s.database =
      s.database.rows.filter fun r => r.table == table := h.rowsAfter_zero table
  rw [← rest]
  refine ensures_get (collectWithin_ends hp h ?_)
  rw [rest]
  exact Nat.lt_succ_of_le (List.length_filter_le _ _)

/-- What a scan collects comes from the rows of the table that the predicate selects. -/
theorem of_collect (hp : 0 < setup.pageSize) (hs : s.database.Ordered) {table : String}
    {predicate : Term} {as : List α}
    (h : (((start table predicate).collect readOff).exec setup s).1 = .ok as) :
    List.Forall₂ (fun r a => readOff r.body = .ok a)
      (Scan.matching setup predicate s.calls
        (s.database.rows.filter fun r => r.table == table)) as := by
  have ended := @collect_ends α setup s readOff hp hs table predicate
  unfold Ensures at ended
  rw [h] at ended
  obtain ⟨-, f, hf⟩ | ⟨-, -, ended⟩ := ended
  · cases hf
  · exact Scan.of_pass ended.symm

end Cursor

end Folio
