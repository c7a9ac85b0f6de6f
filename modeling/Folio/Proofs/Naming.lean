import Folio.Proofs.Replanning
/-!
# Keys by name

A list names each document once, by the first of its keys that is the key of the document, however
it is spelt. The documents that a predicate selects, and those of a whole table, have keys that are
spelt as the documents spell them. So naming these keys finds the same documents in the same order,
and it makes no difference to a request in which of these ways its targets were selected.
-/

namespace Folio

open Run StoreState

/-! ## First occurrences -/

section Firsts

variable {α : Type} {same other : α → α → Bool}

theorem eraseDupsBy_congr (as : List α) (h : ∀ a ∈ as, ∀ b ∈ as, same a b = other a b) :
    as.eraseDupsBy same = as.eraseDupsBy other := by
  match as with
  | [] => rfl
  | a :: as =>
    have behind : as.filter (fun b => same b a = false) = as.filter (fun b => other b a = false) :=
      List.filter_congr fun b hb => by rw [h b (List.mem_cons_of_mem a hb) a List.mem_cons_self]
    rw [List.eraseDupsBy_cons, List.eraseDupsBy_cons, behind]
    refine congrArg (a :: ·) (eraseDupsBy_congr _ fun b hb c hc => ?_)
    exact h b (List.mem_cons_of_mem a (List.mem_filter.1 hb).1) c
      (List.mem_cons_of_mem a (List.mem_filter.1 hc).1)
termination_by as.length
decreasing_by exact Nat.lt_succ_of_le (List.length_filter_le _ _)

/-- Where nothing occurs twice, the first occurrences are all there is. -/
theorem eraseDupsBy_of_pairwise {as : List α} (h : as.Pairwise fun a b => same b a = false) :
    as.eraseDupsBy same = as := by
  induction as with
  | nil => rfl
  | cons a as ih =>
    obtain ⟨apart, rest⟩ := List.pairwise_cons.1 h
    rw [List.eraseDupsBy_cons, List.filter_eq_self.2 fun b hb => decide_eq_true (apart b hb),
      ih rest]

end Firsts

namespace Target

variable {setup : Setup} {s t : StoreState} {db : Database} {table field : String}
variable {key : Value} {keys found : List Value} {selector : Selector Term}

/-! ## Named keys -/

/-- Of some keys those that have documents, in order, each as it is spelt first. -/
def named (db : Database) (table : String) (keys : List Value) : List Value :=
  (keys.filter fun key => (db.find? table key.code).isSome).eraseDupsBy Value.same

/-- A key that has a document is one that addresses documents. -/
theorem isAddress_of_present (h : db.InOrder) (hk : key.isKey = true)
    (present : (db.find? table key.code).isSome = true) : key.isAddress = true := by
  obtain ⟨d, hd⟩ := Option.isSome_iff_exists.1 present
  obtain ⟨r, hr, hat, -⟩ := Database.exists_of_find? hd
  obtain ⟨-, -, own, -, address, code⟩ := h.keyed r hr
  exact Value.isAddress_of_code address hk (code.trans ((Database.isAt_iff r _ _).1 hat).2)

/-- Keys that have documents are told apart by their codes. -/
theorem named_eq (h : db.InOrder) (valid : ∀ key ∈ keys, key.isKey = true) :
    named db table keys = (keys.filter fun key => (db.find? table key.code).isSome).eraseDupsBy
      fun a b => a.code == b.code := by
  have address : ∀ key ∈ keys.filter fun key => (db.find? table key.code).isSome,
      key.isAddress = true := fun key hk =>
    isAddress_of_present h (valid key (List.mem_filter.1 hk).1) (List.mem_filter.1 hk).2
  refine eraseDupsBy_congr _ fun a ha b hb => Bool.eq_iff_iff.2 ?_
  rw [beq_iff_eq, Value.code_eq_iff (address a ha) (address b hb)]

/-- What is found of the listed keys, beside those that were seen. -/
theorem exec_presentKeys (h : s.Orderly) (seen : List String)
    (valid : ∀ key ∈ keys, key.isKey = true) :
    ((presentKeys table seen (keys.map Value.toTerm)).exec setup s).1 =
      .ok ((keys.filter fun key => !seen.contains key.code &&
        (s.database.find? table key.code).isSome).eraseDupsBy fun a b => a.code == b.code) := by
  induction keys generalizing seen s with
  | nil => rfl
  | cons key rest ih =>
    have valid_rest : ∀ key ∈ rest, key.isKey = true := fun key hk =>
      valid key (List.mem_cons_of_mem _ hk)
    rw [List.map_cons, presentKeys, exec_bind, exec_ofExcept,
      validKey_toTerm (valid key List.mem_cons_self)]
    dsimp only
    by_cases known : key.code ∈ seen
    · rw [if_pos (List.contains_iff_mem.2 known), ih h seen valid_rest,
        List.filter_cons_of_neg (by simp [known])]
    · have found := ih h.tick (key.code :: seen) valid_rest
      rw [if_neg fun seen => known (List.contains_iff_mem.1 seen), exec_bind, exec_find? h]
      dsimp only
      rw [exec_bind]
      generalize (presentKeys table _ _).exec setup s.tick = ended at found ⊢
      obtain ⟨_, t⟩ := ended
      cases found
      refine congrArg Except.ok ?_
      rw [show s.tick.database = s.database from rfl]
      cases present : s.database.find? table key.code with
      | none =>
        rw [List.filter_cons_of_neg (by simp [present]), Option.isSome_none,
          if_neg Bool.false_ne_true]
        refine congrArg _ (List.filter_congr fun other _ => ?_)
        by_cases own : other.code = key.code
        · simp [own, present]
        · simp [own]
      | some d =>
        rw [List.filter_cons_of_pos (by simp [known, present]), List.eraseDupsBy_cons,
          List.filter_filter, Option.isSome_some, if_pos rfl]
        refine congrArg (key :: ·) (congrArg _ (List.filter_congr fun other _ => ?_))
        by_cases own : other.code = key.code
        · simp [own]
        · simp [own]

/-- What is found of the keys that are named. -/
theorem exec_keys_getAll (orderly : s.Orderly) (h : s.database.InOrder) (name : String)
    (valid : ∀ key ∈ keys, key.isKey = true) :
    ((Target.keys table field (.getAll name (keys.map Value.toTerm))).exec setup s).1 =
      .ok (named s.database table keys) := by
  rw [named_eq h valid]
  refine (exec_presentKeys orderly [] valid).trans ?_
  simp only [List.contains_nil, Bool.not_false, Bool.true_and]

/-- Keys that were looked for are keys. -/
theorem isKey_of_presentKeys {seen : List String}
    (h : (presentKeys table seen (keys.map Value.toTerm)).exec setup s = (.ok found, t)) :
    ∀ key ∈ keys, key.isKey = true := by
  induction keys generalizing seen s t found with
  | nil => exact fun _ h => nomatch h
  | cons key rest ih =>
    rw [List.map_cons] at h
    obtain ⟨own, valid, h⟩ := exists_of_exec_ofExcept h
    have isKey : key.isKey = true := by
      obtain ⟨same, isKey⟩ := of_validKey valid
      have values := Value.toValue_toTerm key
      rw [same, Value.toValue_toTerm own] at values
      exact Except.ok.inj values ▸ isKey
    have others : ∃ seen s t found,
        (presentKeys table seen (rest.map Value.toTerm)).exec setup s = (.ok found, t) := by
      dsimp only at h
      split at h
      · exact ⟨_, _, _, _, h⟩
      · obtain ⟨_, _, -, h⟩ := exists_of_exec_bind h
        obtain ⟨_, _, h, -⟩ := exists_of_exec_bind h
        exact ⟨_, _, _, _, h⟩
    obtain ⟨_, _, _, _, others⟩ := others
    exact List.forall_mem_cons.2 ⟨isKey, ih others⟩

end Target

/-! ## Scanned keys -/

/-- If something can be read off each row, a pass reads it off the rows that it shows. -/
theorem Scan.pass_of_shown {α : Type} {setup : Setup} {predicate : Term}
    {readOff : Document → Except Failure α} {f : Document → α} {calls : List Call}
    {rows : List Row} {docs : List Document}
    (shown : pass setup predicate .ok calls rows = .ok docs)
    (read : ∀ r ∈ rows, readOff r.body = .ok (f r.body)) :
    pass setup predicate readOff calls rows = .ok (docs.map f) := by
  induction rows generalizing calls docs with
  | nil =>
    cases shown
    rfl
  | cons row rows ih =>
    have ih := fun calls docs shown =>
      @ih calls docs shown fun r hr => read r (List.mem_cons_of_mem row hr)
    rw [pass] at shown ⊢
    generalize verdict setup predicate row.body.toTerm
      (asking predicate row.body.toTerm calls) = said at shown ⊢
    rcases said with f | (_ | _)
    · cases shown
    · exact ih _ _ shown
    · obtain ⟨_, ⟨⟩, shown⟩ := exists_of_bind_ok shown
      obtain ⟨rest, later, ended⟩ := exists_of_bind_ok shown
      cases ended
      dsimp only
      rw [read row List.mem_cons_self, ih _ _ later]
      rfl

/-- Where only locked documents are struck by faults, a scan is one pass over the rows. -/
theorem Cursor.exec_collect {α : Type} {setup : Setup} {s : StoreState}
    (pages : 0 < setup.pageSize) (orderly : s.Orderly) (h : s.database.Ordered) (table : String)
    (predicate : Term) (readOff : Document → Except Failure α) :
    (((start table predicate).collect readOff).exec setup s).1 =
      Scan.pass setup predicate readOff s.calls (Target.rowsOf s.database table) := by
  have calm := @collect_ends α setup { s with faults := [] } readOff pages h table predicate
  obtain ⟨-, same⟩ := collect_browses (@browsing_overlooks s.locks _ orderly.faults) readOff
    (start table predicate) setup { s with faults := [] } rfl
  obtain ⟨faulty, -⟩ | ⟨-, -, ended⟩ := calm
  · exact absurd rfl faulty
  · exact (congrArg Prod.fst same).trans ended

namespace Target

variable {setup : Setup} {s t u : StoreState} {db : Database} {table field : String}
variable {keys found : List Value} {selector : Selector Term}

theorem keyOf_eq (h : db.InOrder) (hf : db.keyField? table = some field) {r : Row}
    (hr : r ∈ rowsOf db table) : Store.keyOf field r.body = .ok (r.body.fieldOrNull field) := by
  obtain ⟨key, read, -⟩ := keyOf_of_mem h hf hr
  unfold Store.keyOf at read ⊢
  unfold Document.fieldOrNull
  split at read
  · rename_i found
    rw [found]
    rfl
  · cases read

/-- The keys for a predicate are those of the documents that it selects. -/
theorem exec_keys_filter (pages : 0 < setup.pageSize) (orderly : s.Orderly)
    (h : s.database.InOrder) (hf : s.database.keyField? table = some field) {predicate : Term}
    {docs : List Document}
    (shown : (Store.select table predicate).exec setup s = (.ok docs, u)) (name : String) :
    ((Target.keys table field (.filter name predicate)).exec setup s.tick).1 =
      .ok (docs.map fun d => d.fieldOrNull field) := by
  have shown : Scan.pass setup predicate .ok s.calls (rowsOf s.database table) = .ok docs :=
    (Cursor.exec_collect pages orderly h.ordered table predicate .ok).symm.trans
      (congrArg Prod.fst shown)
  refine (Cursor.exec_collect pages orderly.tick h.ordered table predicate _).trans ?_
  exact Scan.pass_of_shown shown fun r hr => keyOf_eq h hf hr

/-- The keys for a table are its keys. -/
theorem exec_keys_whole (pages : 0 < setup.pageSize) (orderly : s.Orderly)
    (h : s.database.InOrder) (hf : s.database.keyField? table = some field)
    (listed : (Store.keys table).exec setup s = (.ok found, u)) (name : String) :
    ((Target.keys table field (.table name)).exec setup s.tick).1 = .ok found := by
  have scanned : ∀ t : StoreState, t.Orderly → t.database = s.database → t.calls = s.calls →
      ((Store.keys table).exec setup t).1 = Scan.pass setup .null (Store.keyOf field) s.calls
        (rowsOf s.database table) := by
    intro t orderly same calls
    have own : t.database.keyField? table = some field := same ▸ hf
    unfold Store.keys
    rw [exec_bind, Store.exec_keyField orderly, own, ← same, ← calls]
    exact Cursor.exec_collect pages orderly.tick (same ▸ h.ordered) table .null _
  refine (scanned s.tick orderly.tick rfl rfl).trans ?_
  exact (scanned s orderly rfl rfl).symm.trans (congrArg Prod.fst listed)

/-- Selected keys have documents, unless the selector is a single key. -/
theorem Selected.present (h : db.InOrder) (hf : db.keyField? selector.tableName = some field)
    {calls : List Call} (single : ∀ table term, selector ≠ .get table term)
    (hs : Selected setup db calls field selector keys) :
    ∀ key ∈ keys, (db.find? selector.tableName key.code).isSome = true := by
  have row : ∀ {table : String} {rows : List Row}, db.keyField? table = some field →
      rows ⊆ rowsOf db table →
        List.Forall₂ (fun r key => Store.keyOf field r.body = .ok key) rows keys →
          ∀ key ∈ keys, (db.find? table key.code).isSome = true := by
    intro table rows hf sub hr key hk
    obtain ⟨r, hr, read⟩ := exists_of_forall₂ hr hk
    obtain ⟨own, hown, -, code⟩ := keyOf_of_mem h hf (sub hr)
    cases read.symm.trans hown
    have found := @find?_of_mem_rows db (.table table) h r (List.mem_filter.2 ⟨sub hr, rfl⟩)
    rw [code]
    exact Option.isSome_iff_exists.2 ⟨_, found⟩
  cases selector with
  | get table term => exact absurd rfl (single table term)
  | getAll table terms =>
    intro key hk
    exact ((hs.mem key.code).1 (List.mem_map_of_mem hk)).2.2
  | filter table predicate => exact row hf (Scan.matching_sublist _ _ _).subset hs
  | table name => exact row hf (List.Subset.refl _) hs

/-- Selected keys name what was selected. -/
theorem Selected.named_eq (h : s.database.InOrder)
    (hf : s.database.keyField? selector.tableName = some field)
    (single : ∀ table term, selector ≠ .get table term)
    (hs : Selected setup s.database s.calls field selector keys) :
    named s.database selector.tableName keys = keys := by
  have distinct : keys.Pairwise fun a b => (b.code == a.code) = false := by
    have nodup := hs.nodup h hf
    rw [List.Nodup, List.pairwise_map] at nodup
    exact nodup.imp fun apart => beq_eq_false_iff_ne.2 (Ne.symm apart)
  rw [Target.named_eq h (hs.isKey h hf), List.filter_eq_self.2 (hs.present h hf single)]
  exact eraseDupsBy_of_pairwise distinct

end Target

end Folio
