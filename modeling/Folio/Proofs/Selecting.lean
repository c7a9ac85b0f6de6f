import Folio.Proofs.Planning
import Folio.Proofs.Undisturbed
/-!
# What a selector selects

Seen from the rows of its table, a selector selects those with a named code, those that its
predicate matches, or all. A predicate that is a mapping or an expression looks at each document on
its own, and an expression that cannot be evaluated on it does not match; only a number out of range
is the failure of the whole scan. So without faults the targets of a request are the selected rows,
or there is such a number.
-/

namespace Folio

open Run StoreState

/-! ## Predicates -/

namespace Predicate

/-- A predicate that is a mapping or an expression. -/
def IsPlain : Term → Prop
  | .mapping _ => True
  | .expression .. => True
  | _ => False

/-- Whether a plain predicate selects a document. An expression that cannot be evaluated on it does
not. -/
def isMatch (predicate : Term) (d : Document) : Bool :=
  match predicate with
  | .expression _ e =>
    match e.value d.toTerm with
    | .ok value => value.truthy
    | .error _ => false
  | predicate => matchValue predicate d.toTerm

/-- Whether a number is out of range while a predicate is evaluated on a document. -/
def overflows (predicate : Term) (d : Document) : Bool :=
  match selects predicate d.toTerm with
  | .ok _ => false
  | .error f => f.kind == .overflow

variable {predicate : Term} {d : Document} {f : Failure}

theorem callable?_of_isPlain (h : IsPlain predicate) : predicate.callable? = none := by
  cases predicate <;> first | rfl | cases h

/-- A plain predicate fails for nothing but a number out of range. -/
theorem overflow_of_selects (hp : IsPlain predicate) (h : selects predicate d.toTerm = .error f) :
    f.kind = .overflow := by
  cases predicate with
  | mapping entries => cases h
  | expression node e =>
    have h : ofEvaluated (e.value d.toTerm) = .error f := h
    unfold ofEvaluated at h
    split at h
    · cases h
    · rename_i fault _
      split at h
      · cases h
      · rename_i other
        cases h
        exact (Failure.kind_evaluation fault).resolve_right other
  | _ => cases hp

theorem overflows_of_selects_error (hp : IsPlain predicate)
    (h : selects predicate d.toTerm = .error f) : overflows predicate d = true := by
  unfold overflows
  rw [h]
  exact beq_iff_eq.2 (overflow_of_selects hp h)

theorem overflows_of_selects_ok {b : Bool} (h : selects predicate d.toTerm = .ok b) :
    overflows predicate d = false := by
  unfold overflows
  rw [h]

/-- The documents that a scan shows are those that a plain predicate matches. -/
theorem selects_eq_isMatch (hp : IsPlain predicate) :
    ((selects predicate d.toTerm).toOption == some true) = isMatch predicate d := by
  cases predicate with
  | mapping entries =>
    show (some (matchValue (.mapping entries) d.toTerm) == some true) =
      matchValue (.mapping entries) d.toTerm
    cases matchValue (.mapping entries) d.toTerm <;> rfl
  | expression node e =>
    show ((ofEvaluated (e.value d.toTerm)).toOption == some true) = _
    rw [isMatch]
    unfold ofEvaluated
    cases e.value d.toTerm with
    | ok value =>
      show (some value.truthy == some true) = value.truthy
      cases value.truthy <;> rfl
    | error fault =>
      dsimp only
      split <;> rfl
  | _ => cases hp

end Predicate

/-- Every key of the selector is one, and its predicate is a mapping or an expression. -/
def Selector.IsValid : Selector Term → Prop
  | .get _ key => ∃ k, Target.validKey key = .ok k
  | .getAll _ keys => ∀ key ∈ keys, ∃ k, Target.validKey key = .ok k
  | .filter _ predicate => Predicate.IsPlain predicate
  | .table _ => True

namespace Scan

variable {α : Type} {setup : Setup} {readOff : Document → Except Failure α} {predicate : Term}

/-- A pass that ends well has asked a predicate that is no function about every row. -/
theorem selects_of_pass (hc : predicate.callable? = none) {calls : List Call} {rows : List Row}
    {as : List α} (h : pass setup predicate readOff calls rows = .ok as) :
    ∀ r ∈ rows, ∃ b, Predicate.selects predicate r.body.toTerm = .ok b := by
  induction rows generalizing as with
  | nil =>
    intro r hr
    cases hr
  | cons row rows ih =>
    obtain ⟨said, asked⟩ := @verdict_of_pure setup predicate hc row.body.toTerm calls
    rw [pass] at h
    rw [said, asked] at h
    cases hs : Predicate.selects predicate row.body.toTerm with
    | error f =>
      rw [hs] at h
      cases h
    | ok b =>
      rw [hs] at h
      have later : ∃ as, pass setup predicate readOff calls rows = .ok as := by
        cases b with
        | false => exact ⟨as, h⟩
        | true =>
          obtain ⟨a, -, h⟩ := exists_of_bind_ok h
          obtain ⟨rest, hrest, -⟩ := exists_of_bind_ok h
          exact ⟨rest, hrest⟩
      obtain ⟨rest, hrest⟩ := later
      intro r hr
      rcases List.mem_cons.1 hr with rfl | hr
      · exact ⟨b, hs⟩
      · exact ih hrest r hr

/-- If everything can be read off, a pass fails only where the predicate does. -/
theorem exists_of_pass_error (hc : predicate.callable? = none) {calls : List Call}
    {rows : List Row} (read : ∀ r ∈ rows, ∃ a, readOff r.body = .ok a) {f : Failure}
    (h : pass setup predicate readOff calls rows = .error f) :
    ∃ r ∈ rows, Predicate.selects predicate r.body.toTerm = .error f := by
  induction rows with
  | nil => cases h
  | cons row rows ih =>
    obtain ⟨a, ha⟩ := read row List.mem_cons_self
    obtain ⟨said, asked⟩ := @verdict_of_pure setup predicate hc row.body.toTerm calls
    rw [pass] at h
    rw [said, asked, ha] at h
    have later : pass setup predicate readOff calls rows = .error f →
        ∃ r ∈ row :: rows, Predicate.selects predicate r.body.toTerm = .error f := by
      intro h
      obtain ⟨r, hr, hf⟩ := ih (fun r hr => read r (List.mem_cons_of_mem _ hr)) h
      exact ⟨r, List.mem_cons_of_mem _ hr, hf⟩
    cases hs : Predicate.selects predicate row.body.toTerm with
    | error g =>
      rw [hs] at h
      cases h
      exact ⟨row, List.mem_cons_self, hs⟩
    | ok b =>
      rw [hs] at h
      cases b with
      | false => exact later h
      | true =>
        apply later
        cases hrest : pass setup predicate readOff calls rows with
        | ok rest =>
          rw [hrest] at h
          cases h
        | error g =>
          rw [hrest] at h
          cases h
          rfl

end Scan

/-- Without faults the key field of a table is read. -/
theorem Store.keyField_undisturbed {setup : Setup} {s : StoreState} {table field : String}
    (faults : s.faults = []) (hf : s.database.keyField? table = some field) :
    Ensures setup s (Store.keyField table) fun r t => r = .ok field ∧ Ticked s t := by
  have read : (Session.keyField table).exec setup s = (.ok (some field), s.tick) := by
    unfold Session.keyField
    rw [exec_faulty_of_nil faults, ← hf]
    rfl
  unfold Ensures Store.keyField
  rw [exec_bind, exec_session _ (connects_of_nil faults) (by rw [read]; rfl), read]
  exact ⟨rfl, ticked_tick s⟩

/-! ## Selected rows -/

namespace Target

/-- Whether a selector selects a row of its table. -/
def isSelected : Selector Term → Row → Bool
  | .get _ key, r => (codes [key]).contains r.code
  | .getAll _ keys, r => (codes keys).contains r.code
  | .filter _ predicate, r => Predicate.isMatch predicate r.body
  | .table _, _ => true

/-- The rows that a selector selects. -/
def rows (db : Database) (selector : Selector Term) : List Row :=
  (rowsOf db selector.tableName).filter (isSelected selector)

/-- The codes of the targets of a selector. A key that is named is one of them even if there is no
document under it. -/
def listed (db : Database) : Selector Term → List String
  | .get _ key => codes [key]
  | selector => (rows db selector).map Row.code

variable {setup : Setup} {s : StoreState} {db : Database} {selector : Selector Term}
variable {table field : String} {keys : List Value}

theorem nodup_rowsOf (h : db.InOrder) (table : String) :
    ((rowsOf db table).map Row.code).Nodup := by
  rw [List.Nodup, List.pairwise_map]
  refine (h.distinct.filter _).imp_of_mem fun {r s} hr hs apart eq => ?_
  have tables : s.table = r.table :=
    (eq_of_beq (List.mem_filter.1 hs).2).trans (eq_of_beq (List.mem_filter.1 hr).2).symm
  rw [(Database.isAt_iff s _ _).2 ⟨tables, eq.symm⟩] at apart
  cases apart

theorem nodup_rows (h : db.InOrder) (selector : Selector Term) :
    ((rows db selector).map Row.code).Nodup :=
  (nodup_rowsOf h _).sublist (List.filter_sublist.map _)

theorem find?_of_mem_rows (h : db.InOrder) {r : Row} (hr : r ∈ rows db selector) :
    db.find? selector.tableName r.code = some r.body := by
  obtain ⟨hmem, htable⟩ := List.mem_filter.1 (List.mem_filter.1 hr).1
  rw [← eq_of_beq htable]
  exact h.find?_of_mem hmem

/-- A document under the code of a row that is selected by its code is that of a selected row. -/
theorem exists_row {code : String} {d : Document}
    (hf : db.find? selector.tableName code = some d)
    (hs : ∀ r : Row, r.code = code → isSelected selector r = true) :
    ∃ r ∈ rows db selector, r.code = code ∧ r.body = d := by
  obtain ⟨r, hr, hat, hd⟩ := Database.exists_of_find? hf
  obtain ⟨ht, hc⟩ := (Database.isAt_iff r _ _).1 hat
  exact ⟨r, List.mem_filter.2 ⟨List.mem_filter.2 ⟨hr, beq_iff_eq.2 ht⟩, hs r hc⟩, hc, hd⟩

/-- Keys that are read off rows have their codes. -/
theorem map_code_of_forall₂ (h : db.InOrder) (hf : db.keyField? table = some field)
    {rows : List Row} (sub : rows ⊆ rowsOf db table)
    (hr : List.Forall₂ (fun r key => Store.keyOf field r.body = .ok key) rows keys) :
    keys.map Value.code = rows.map Row.code := by
  induction hr with
  | nil => rfl
  | @cons r key rows keys read _ ih =>
    obtain ⟨own, hown, -, hcode⟩ := keyOf_of_mem h hf (sub List.mem_cons_self)
    rw [hown] at read
    cases read
    rw [List.map_cons, List.map_cons, hcode, ih fun r hr => sub (List.mem_cons_of_mem _ hr)]

/-- No document is selected twice. -/
theorem Selected.nodup (h : db.InOrder) (hf : db.keyField? selector.tableName = some field)
    {calls : List Call} (hs : Selected setup db calls field selector keys) :
    (keys.map Value.code).Nodup := by
  cases selector with
  | get table term =>
    obtain ⟨key, -, rfl⟩ := hs
    exact List.nodup_singleton _
  | getAll table terms => exact Present.nodup hs
  | filter table predicate =>
    rw [map_code_of_forall₂ h hf (Scan.matching_sublist _ _ _).subset hs]
    exact (nodup_rowsOf h table).sublist ((Scan.matching_sublist _ _ _).map _)
  | table name =>
    rw [map_code_of_forall₂ h hf (List.Subset.refl _) hs]
    exact nodup_rowsOf h name

/-- The targets of a selector are the keys that are found for it. -/
theorem Selected.perm (h : db.InOrder) (valid : selector.IsValid)
    (hf : db.keyField? selector.tableName = some field) {calls : List Call}
    (hs : Selected setup db calls field selector keys) :
    (keys.map Value.code).Perm (listed db selector) := by
  cases selector with
  | get table term =>
    obtain ⟨key, hk, rfl⟩ := hs
    rw [listed, codes_cons hk]
    exact .refl _
  | getAll table terms =>
    refine (List.perm_ext_iff_of_nodup (Present.nodup hs) (nodup_rows h (.getAll table terms))).2 ?_
    intro code
    rw [hs.mem, List.mem_map]
    -- A named key is found if and only if a row has its code.
    constructor
    · rintro ⟨named, -, present⟩
      obtain ⟨d, hd⟩ := Option.isSome_iff_exists.1 present
      obtain ⟨r, hr, hc, -⟩ := @exists_row db (.getAll table terms) code d hd
        fun r hc => List.contains_iff_mem.2 (hc ▸ named)
      exact ⟨r, hr, hc⟩
    · rintro ⟨r, hr, rfl⟩
      refine ⟨List.contains_iff_mem.1 (List.mem_filter.1 hr).2, List.not_mem_nil, ?_⟩
      have found := find?_of_mem_rows h hr
      rw [Selector.tableName] at found
      rw [found]
      rfl
  | filter table predicate =>
    have hs : List.Forall₂ (fun r key => Store.keyOf field r.body = .ok key)
        (Scan.matching setup predicate calls (rowsOf db table)) keys := hs
    -- The keys are read off the matching rows, one for one.
    have matched : Scan.matching setup predicate calls (rowsOf db table) =
        rows db (.filter table predicate) := by
      rw [Scan.matching_of_pure (Predicate.callable?_of_isPlain valid)]
      exact List.filter_congr fun r _ => Predicate.selects_eq_isMatch valid
    rw [matched] at hs
    rw [map_code_of_forall₂ h hf (List.filter_subset_self _) hs]
    exact .refl _
  | table name =>
    have every : rows db (.table name) = rowsOf db name :=
      List.filter_eq_self.2 fun _ _ => rfl
    show (keys.map Value.code).Perm ((rows db (.table name)).map Row.code)
    rw [every, map_code_of_forall₂ h hf (List.Subset.refl _) hs]
    exact .refl _

/-- A document under the code of a target is that of a selected row. -/
theorem exists_row_of_listed (h : db.InOrder) {code : String} {d : Document}
    (hc : code ∈ listed db selector) (hf : db.find? selector.tableName code = some d) :
    ∃ r ∈ rows db selector, r.body = d := by
  have named : (∀ r : Row, r.code = code → isSelected selector r = true) →
      ∃ r ∈ rows db selector, r.body = d := fun hs => by
    obtain ⟨r, hr, -, hd⟩ := exists_row hf hs
    exact ⟨r, hr, hd⟩
  have row : code ∈ (rows db selector).map Row.code → ∃ r ∈ rows db selector, r.body = d := by
    intro hm
    obtain ⟨r, hr, rfl⟩ := List.mem_map.1 hm
    exact ⟨r, hr, Option.some.inj ((find?_of_mem_rows h hr).symm.trans hf)⟩
  cases selector with
  | get table key => exact named fun r hr => List.contains_iff_mem.2 (hr ▸ hc)
  | _ => exact row hc

theorem code_mem_listed {r : Row} (hr : r ∈ rows db selector) : r.code ∈ listed db selector := by
  cases selector with
  | get table key => exact List.contains_iff_mem.1 (List.mem_filter.1 hr).2
  | _ => exact List.mem_map_of_mem hr

/-! ## Planning -/

/-- Where the keys are looked for, no predicate meets a number out of range. -/
def Surveyed (db : Database) (selector : Selector Term) : Except Failure (List Value) → Prop
  | .ok _ => ∀ table predicate, selector = .filter table predicate →
    ∀ r ∈ rowsOf db table, Predicate.overflows predicate r.body = false
  | .error f => f.kind = .overflow ∧ ∃ table predicate, selector = .filter table predicate ∧
    ∃ r ∈ rowsOf db table, Predicate.overflows predicate r.body = true

theorem presentKeys_undisturbed (faults : s.faults = []) (seen : List String) {terms : List Term}
    (valid : ∀ term ∈ terms, ∃ key, validKey term = .ok key) :
    Ensures setup s (presentKeys table seen terms) fun r _ => ∃ keys, r = .ok keys := by
  induction terms generalizing seen s with
  | nil => exact ⟨_, rfl⟩
  | cons term rest ih =>
    have rest_valid : ∀ term ∈ rest, ∃ key, validKey term = .ok key :=
      fun term ht => valid term (List.mem_cons_of_mem _ ht)
    obtain ⟨key, hk⟩ := valid term List.mem_cons_self
    obtain ⟨rfl, -⟩ := of_validKey hk
    refine ensures_ofExcept_bind (fun found _ => ?_) fun f hf => ?_
    · dsimp only
      split
      · exact ih faults seen rest_valid
      · have fetched : Ensures setup s (Store.find? table key.toTerm) fun r t =>
            t.faults = [] ∧ ∃ d, r = .ok d := by
          have read : (Session.fetch table key.toTerm).exec setup s =
              (.ok (s.database.find? table key.code), s.tick) := by
            unfold Session.fetch
            rw [exec_faulty_of_nil faults]
            simp only [exec_bind, Session.exec_codeOf, exec_get, exec_pure]
            rfl
          unfold Ensures Store.find?
          rw [exec_session _ (connects_of_nil faults) (by rw [read]; rfl), read]
          exact ⟨faults, _, rfl⟩
        refine fetched.bind ?_ (fun f t h => nomatch h.2.choose_spec)
        rintro d t ⟨none, -⟩
        refine (ih none _ rest_valid).bind ?_ (fun f t h => nomatch h.choose_spec)
        exact fun keys u _ => ⟨_, rfl⟩
    · rw [hk] at hf
      cases hf

/-- Without faults the keys that a plain predicate selects are found, unless it meets a number out
of range. -/
theorem collect_undisturbed (hp : 0 < setup.pageSize) (h : s.database.InOrder)
    (faults : s.faults = []) (hf : s.database.keyField? table = some field) {predicate : Term}
    (hc : predicate.callable? = none) :
    Ensures setup s ((Cursor.start table predicate).collect (Store.keyOf field)) fun r _ =>
      match r with
      | .ok _ => ∀ r ∈ rowsOf s.database table,
        ∃ b, Predicate.selects predicate r.body.toTerm = .ok b
      | .error f => ∃ r ∈ rowsOf s.database table,
        Predicate.selects predicate r.body.toTerm = .error f := by
  have readable : ∀ r ∈ rowsOf s.database table, ∃ key, Store.keyOf field r.body = .ok key := by
    intro r hr
    obtain ⟨key, hk, -⟩ := keyOf_of_mem h hf hr
    exact ⟨key, hk⟩
  refine (Cursor.collect_ends hp h.ordered table predicate).mono fun r _ ended => ?_
  have passed := (ended.resolve_left fun faulty => faulty.1 faults).2.2
  cases r with
  | ok keys => exact Scan.selects_of_pass hc passed.symm
  | error f => exact Scan.exists_of_pass_error hc readable passed.symm

/-- Without faults the keys of a valid selector are found, unless a number is out of range. -/
theorem keys_undisturbed (hp : 0 < setup.pageSize) (h : s.database.InOrder)
    (faults : s.faults = []) (hf : s.database.keyField? selector.tableName = some field)
    (valid : selector.IsValid) :
    Ensures setup s (Target.keys selector.tableName field selector) fun r _ =>
      Surveyed s.database selector r := by
  cases selector with
  | get table term =>
    obtain ⟨key, hk⟩ := valid
    refine ensures_ofExcept_bind (fun _ _ => ?_) fun f hf => ?_
    · exact fun _ _ h => nomatch h
    · rw [hk] at hf
      cases hf
  | getAll table terms =>
    refine (presentKeys_undisturbed faults [] valid).mono ?_
    rintro _ t ⟨keys, rfl⟩ _ _ h
    cases h
  | filter table predicate =>
    have hc := Predicate.callable?_of_isPlain valid
    refine (collect_undisturbed hp h faults hf hc).mono fun r _ ended => ?_
    cases r with
    | ok keys =>
      rintro _ _ ⟨⟩ r hr
      obtain ⟨b, hb⟩ := ended r hr
      exact Predicate.overflows_of_selects_ok hb
    | error f =>
      obtain ⟨r, hr, hs⟩ := ended
      exact ⟨Predicate.overflow_of_selects valid hs, table, predicate, rfl, r, hr,
        Predicate.overflows_of_selects_error valid hs⟩
  | table name =>
    refine (Store.keyField_undisturbed faults hf).bind ?_ (fun f t h => nomatch h.1)
    rintro _ _ ⟨⟨⟩, n, rfl⟩
    have collected := @collect_undisturbed setup { s with operations := n } name field hp h faults
      hf .null rfl
    refine collected.mono fun r _ ended => ?_
    cases r with
    | ok keys => exact fun _ _ h => nomatch h
    | error f =>
      -- The null predicate fails on no document.
      obtain ⟨r, -, hs⟩ := ended
      cases hs

end Target

end Folio
