import Folio.Proofs.Deciding
import Folio.Proofs.Pairs
import Folio.Proofs.Scanning
import Folio.Writer.Target
import Mathlib.Data.Finset.Card
/-!
# Plans

A plan lists the targets of a request in order, each with a key that can address a document. It is
made before anything is written, and it is complete: it has one task for each document of a payload,
and for each document that the selector selects in the database as it is at the start.
-/

namespace Folio

open Run StoreState

variable {setup : Setup} {s : StoreState} {request : Request}

/-- The tasks have keys and stand in their places. -/
structure Planned (start : Nat) (tasks : List Task) : Prop where
  keys : ∀ task ∈ tasks, task.key.isKey = true
  places : tasks.map Task.index = List.range' start tasks.length

theorem forall₂_of_mapM {α β : Type} {f : α → Except Failure β} {xs : List α} {ys : List β}
    (h : xs.mapM f = .ok ys) : List.Forall₂ (fun x y => f x = .ok y) xs ys := by
  induction xs generalizing ys with
  | nil =>
    cases h
    exact .nil
  | cons x xs ih =>
    rw [List.mapM_cons] at h
    obtain ⟨y, hx, h⟩ := exists_of_bind_ok h
    obtain ⟨rest, hxs, h⟩ := exists_of_bind_ok h
    cases h
    exact .cons hx (ih hxs)

/-! ## Reading -/

theorem Store.keyField_reads (table : String) :
    Reads setup s (Store.keyField table) fun field =>
      s.database.keyField? table = some field := by
  have read : Reads setup s (Session.keyField table) fun found =>
      found = s.database.keyField? table := by
    refine Reads.faulty (Reads.get ?_) _ _
    exact reads_pure rfl
  refine read.session.then fun found n hf => ?_
  cases found with
  | none => exact reads_throw
  | some field => exact reads_pure hf.symm

theorem Store.find?_reads (table : String) (key : Value) :
    Reads setup s (Store.find? table key.toTerm) fun found =>
      found = s.database.find? table key.code := by
  have code : Reads setup s.tick (Session.codeOf key.toTerm) fun code => code = key.code := by
    unfold Reads Ensures
    rw [Session.exec_codeOf]
    exact ⟨refl _, fun code hc => by cases hc; rfl⟩
  refine Reads.session (Reads.faulty (code.then ?_) _ _)
  rintro _ n rfl
  exact Reads.get (reads_pure rfl)

namespace Target

/-! ## Payloads -/

/-- The number of documents that a payload stands for. -/
def payloadSize : Term → Nat
  | .list items => items.length
  | .tuple items => items.length
  | _ => 1

/-- A document of a payload: a mapping, or a record as one. -/
def document (t : Term) : Except Failure Document :=
  match t.recordAsMapping.validateDocument "insert payload" with
  | .ok d => .ok d
  | .error fault => .error (.malformed fault)

theorem document_settled {t : Term} {d : Document} (h : document t = .ok d) (ht : t.IsSettled) :
    d.IsSettled := by
  unfold document at h
  split at h
  · rename_i hd
    cases h
    exact Term.isSettled_validateDocument (Term.isSettled_recordAsMapping ht) hd
  · cases h

/-- The items of a payload, one for each document. -/
def items : Term → List Term
  | .list items => items
  | .tuple items => items
  | payload => [payload]

theorem length_items (payload : Term) : (items payload).length = payloadSize payload := by
  cases payload <;> rfl

theorem isSettled_of_mem_items {payload t : Term} (h : payload.IsSettled)
    (ht : t ∈ items payload) : t.IsSettled := by
  unfold items at ht
  split at ht
  · exact Term.isSettled_of_mem h _ ht
  · exact Term.isSettled_of_mem h _ ht
  · exact List.mem_singleton.1 ht ▸ h

/-- The documents of a payload come from its items, one for one. -/
theorem documents_ends {payload : Term} {found : List Document}
    (h : documents payload = .ok found) :
    List.Forall₂ (fun t d => document t = .ok d) (items payload) found := by
  have items : ∀ {items : List Term}, items.mapM document = .ok found →
      List.Forall₂ (fun t d => document t = .ok d) items found := forall₂_of_mapM
  cases payload with
  | list xs => exact items h
  | tuple xs => exact items h
  | mapping entries => exact items h
  | record fields identity => exact items h
  | selector selector => exact items h
  | mutation mutation => exact items h
  | _ => cases h

/-- What stands for a document is a payload of its own. -/
theorem documents_of_document {t : Term} {d : Document} (h : document t = .ok d) :
    documents t = .ok [d] := by
  have one : [t].mapM document = .ok [d] := by
    rw [List.mapM_cons, h]
    rfl
  cases t with
  | mapping entries => exact one
  | record fields identity => exact one
  | selector selector => exact one
  | mutation mutation => exact one
  | _ => cases h

theorem withKey_ends (field : String) (d : Document) :
    Ensures setup s (withKey field d) fun r _ => ∃ found generated, r = .ok (found, generated) ∧
      (d.IsSettled → found.IsSettled) := by
  unfold withKey
  split
  · exact ⟨d, false, rfl, id⟩
  · rename_i absent
    refine ⟨(field, .scalar (.text (setup.freshKey s.generated))) :: d, true, rfl, fun hd => ?_⟩
    refine hd.cons trivial ?_
    simpa [Entries.has] using absent

/-- One task for each document, in order. -/
theorem insertTasks_planned (field : String) (index : Nat) (found : List Document) :
    Ensures setup s (insertTasks field index found) fun r _ => ∀ tasks, r = .ok tasks →
      Planned index tasks ∧ tasks.length = found.length ∧
        ((∀ d ∈ found, d.IsSettled) → ∀ task ∈ tasks, task.IsSettled) := by
  induction found generalizing index s with
  | nil =>
    rintro _ ⟨⟩
    exact ⟨⟨by simp, rfl⟩, rfl, by simp⟩
  | cons d rest ih =>
    refine Ensures.bind (withKey_ends field d) ?_ (fun f t h => nomatch h.choose_spec.choose_spec.1)
    rintro _ t ⟨document, generated, ⟨⟩, hd⟩
    dsimp only
    split
    · exact fun _ h => nomatch h
    · rename_i hkey
      refine Ensures.bind (ih (index + 1)) ?_ (fun f t h _ hr => nomatch hr)
      rintro tasks v h _ ⟨⟩
      obtain ⟨⟨keys, places⟩, length, settled⟩ := h tasks rfl
      refine ⟨⟨?_, ?_⟩, ?_, ?_⟩
      · rintro task (_ | ⟨_, ht⟩)
        · simpa using hkey
        · exact keys task ht
      · rw [List.map_cons, places, List.length_cons, List.range'_succ]
      · rw [List.length_cons, List.length_cons, length]
      · intro hall task ht
        rcases List.mem_cons.1 ht with rfl | ht
        · exact hd (hall d List.mem_cons_self)
        · exact settled (fun e he => hall e (List.mem_cons_of_mem _ he)) task ht

/-! ## Selected keys -/

theorem of_validKey {term : Term} {key : Value} (h : validKey term = .ok key) :
    term = key.toTerm ∧ key.isKey = true := by
  unfold validKey at h
  split at h
  · split at h
    · rename_i hk
      cases h
      exact ⟨rfl, hk⟩
    · cases h
  · cases h

theorem validKey_toTerm {key : Value} (h : key.isKey = true) : validKey key.toTerm = .ok key := by
  cases key with
  | scalar k => exact if_pos h
  | list items => cases h
  | object fields => cases h

/-- The codes of those terms that are keys. -/
def codes (terms : List Term) : List String :=
  terms.filterMap fun t => (validKey t).toOption.map Value.code

theorem codes_cons {term : Term} {key : Value} (h : validKey term = .ok key) (rest : List Term) :
    codes (term :: rest) = key.code :: codes rest := by
  unfold codes
  rw [List.filterMap_cons, h]
  rfl

/-- The listed keys of documents that exist, each code once. -/
structure Present (db : Database) (table : String) (seen : List String) (terms : List Term)
    (keys : List Value) : Prop where
  valid : ∀ key ∈ keys, key.isKey = true
  nodup : (keys.map Value.code).Nodup
  mem : ∀ code, code ∈ keys.map Value.code ↔
    code ∈ codes terms ∧ code ∉ seen ∧ (db.find? table code).isSome = true

section Present

variable {db : Database} {table : String} {seen : List String} {term : Term} {rest : List Term}
variable {key : Value} {keys : List Value}

/-- A key that was seen, perhaps in another spelling, counts once. -/
theorem Present.again (h : Present db table seen rest keys) (hv : validKey term = .ok key)
    (hseen : key.code ∈ seen) : Present db table seen (term :: rest) keys := by
  refine ⟨h.valid, h.nodup, fun code => ?_⟩
  rw [h.mem, codes_cons hv, List.mem_cons]
  constructor
  · rintro ⟨hc, hs, hp⟩
    exact ⟨.inr hc, hs, hp⟩
  · rintro ⟨rfl | hc, hs, hp⟩
    · exact absurd hseen hs
    · exact ⟨hc, hs, hp⟩

theorem Present.cons (h : Present db table (key.code :: seen) rest keys)
    (hv : validKey term = .ok key) (hk : key.isKey = true) (hseen : key.code ∉ seen)
    (present : (db.find? table key.code).isSome = true) :
    Present db table seen (term :: rest) (key :: keys) := by
  have fresh : key.code ∉ keys.map Value.code := fun hm =>
    ((h.mem key.code).1 hm).2.1 List.mem_cons_self
  refine ⟨?_, List.nodup_cons.2 ⟨fresh, h.nodup⟩, fun code => ?_⟩
  · intro k hm
    rcases List.mem_cons.1 hm with rfl | hm
    · exact hk
    · exact h.valid k hm
  · rw [List.map_cons, List.mem_cons, h.mem, codes_cons hv, List.mem_cons, List.mem_cons]
    constructor
    · rintro (rfl | ⟨hc, hs, hp⟩)
      · exact ⟨.inl rfl, hseen, present⟩
      · exact ⟨.inr hc, fun hm => hs (.inr hm), hp⟩
    · rintro ⟨hc, hs, hp⟩
      by_cases eq : code = key.code
      · exact .inl eq
      · exact .inr ⟨hc.resolve_left eq, fun hm => hm.elim eq hs, hp⟩

/-- A key without a document is left out. -/
theorem Present.without (h : Present db table (key.code :: seen) rest keys)
    (hv : validKey term = .ok key) (absent : (db.find? table key.code).isSome ≠ true) :
    Present db table seen (term :: rest) keys := by
  refine ⟨h.valid, h.nodup, fun code => ?_⟩
  rw [h.mem, codes_cons hv, List.mem_cons, List.mem_cons]
  constructor
  · rintro ⟨hc, hs, hp⟩
    exact ⟨.inr hc, fun hm => hs (.inr hm), hp⟩
  · rintro ⟨hc, hs, hp⟩
    have ne : code ≠ key.code := fun eq => absent (eq ▸ hp)
    exact ⟨hc.resolve_left ne, fun hm => hm.elim ne hs, hp⟩

end Present

theorem presentKeys_reads (table : String) (seen : List String) (terms : List Term) :
    Reads setup s (presentKeys table seen terms) (Present s.database table seen terms) := by
  induction terms generalizing seen s with
  | nil => exact reads_pure ⟨by simp, by simp, by simp [codes]⟩
  | cons term rest ih =>
    refine Reads.then (reads_ofExcept (P := fun key => validKey term = .ok key) fun _ h => h) ?_
    intro key n hv
    obtain ⟨rfl, hk⟩ := of_validKey hv
    dsimp only
    split
    · rename_i hseen
      rw [List.contains_iff_mem] at hseen
      exact (ih (s := { s with operations := n }) seen).mono fun keys h => h.again hv hseen
    · rename_i hseen
      rw [List.contains_iff_mem] at hseen
      refine (Store.find?_reads table key).then ?_
      rintro _ m rfl
      refine Reads.then (ih (s := { s with operations := m }) (key.code :: seen)) fun keys l h => ?_
      refine reads_pure ?_
      split
      · rename_i present
        exact h.cons hv hk hseen present
      · rename_i absent
        exact h.without hv absent

/-- The rows of a table, in order. -/
def rowsOf (db : Database) (table : String) : List Row := db.rows.filter fun r => r.table == table

/-- The keys that a selector selects from a database, after some calls of functions. -/
def Selected (setup : Setup) (db : Database) (calls : List Call) (field : String) :
    Selector Term → List Value → Prop
  | .get _ term, keys => ∃ key, validKey term = .ok key ∧ keys = [key]
  | .getAll table terms, keys => Present db table [] terms keys
  | .filter table predicate, keys =>
    List.Forall₂ (fun r key => Store.keyOf field r.body = .ok key)
      (Scan.matching setup predicate calls (rowsOf db table)) keys
  | .table table, keys =>
    List.Forall₂ (fun r key => Store.keyOf field r.body = .ok key) (rowsOf db table) keys

theorem keys_selected (hp : 0 < setup.pageSize) (h : s.database.InOrder) {table field : String}
    (hf : s.database.keyField? table = some field) {selector : Selector Term}
    (ht : selector.tableName = table) :
    Ensures setup s (keys table field selector) fun r _ => ∀ keys, r = .ok keys →
      Selected setup s.database s.calls field selector keys := by
  subst ht
  cases selector with
  | get name term =>
    refine ensures_ofExcept_bind (fun key hk => ?_) fun f _ _ h => nomatch h
    rintro _ ⟨⟩
    exact ⟨key, hk, rfl⟩
  | getAll name terms =>
    have read : Reads setup s (presentKeys name [] terms) (Present s.database name [] terms) :=
      presentKeys_reads name [] terms
    exact Ensures.mono read fun r t hr => hr.2
  | filter name predicate => exact fun keys hk => Cursor.of_collect hp h.ordered hk
  | table name =>
    refine Reads.bind (Store.keyField_reads name) (fun found n hfound => ?_) fun f _ _ h =>
      nomatch h
    obtain rfl : found = field := Option.some.inj (hfound.symm.trans hf)
    intro keys hk
    have := Cursor.of_collect (s := { s with operations := n }) hp h.ordered hk
    rw [Scan.matching_null] at this
    exact this

/-- In a database in order the key of each row can be read, and has the row's code. -/
theorem keyOf_of_mem {db : Database} (h : db.InOrder) {table field : String}
    (hf : db.keyField? table = some field) {r : Row} (hr : r ∈ rowsOf db table) :
    ∃ key, Store.keyOf field r.body = .ok key ∧ key.isKey = true ∧ key.code = r.code := by
  obtain ⟨hmem, htable⟩ := List.mem_filter.1 hr
  obtain ⟨own, hown, key, hfind, haddr, hcode⟩ := h.keyed r hmem
  rw [eq_of_beq htable, hf] at hown
  cases hown
  refine ⟨key, ?_, Value.isKey_of_isAddress haddr, hcode⟩
  unfold Store.keyOf
  rw [hfind]

/-- In a database in order every selected key is one. -/
theorem Selected.isKey (h : s.database.InOrder) {field : String} {selector : Selector Term}
    (hf : s.database.keyField? selector.tableName = some field) {keys : List Value}
    (hs : Selected setup s.database s.calls field selector keys) :
    ∀ key ∈ keys, key.isKey = true := by
  have row : ∀ {table : String} {rows : List Row},
      s.database.keyField? table = some field → rows ⊆ rowsOf s.database table →
        List.Forall₂ (fun r key => Store.keyOf field r.body = .ok key) rows keys →
          ∀ key ∈ keys, key.isKey = true := by
    intro table rows hf sub hr key hk
    obtain ⟨r, hr, hread⟩ := exists_of_forall₂ hr hk
    obtain ⟨own, hown, isKey, -⟩ := keyOf_of_mem h hf (sub hr)
    rw [hread] at hown
    cases hown
    exact isKey
  cases selector with
  | get name term =>
    obtain ⟨key, hk, rfl⟩ := hs
    simpa using (of_validKey hk).2
  | getAll name terms => exact hs.valid
  | filter name predicate => exact row hf (Scan.matching_sublist _ _ _).subset hs
  | table name => exact row hf (List.Subset.refl _) hs

/-! ## Tasks -/

/-- The tasks of one work on each of some keys. -/
def tasksOn (work : Work) (keys : List Value) : List Task :=
  keys.zipIdx.map fun (key, index) => ⟨index, key, work⟩

@[simp] theorem length_tasksOn (work : Work) (keys : List Value) :
    (tasksOn work keys).length = keys.length := by
  simp [tasksOn]

/-- Only the policy that refuses is accepted for updates and deletions. -/
theorem conflict_of_checkConflict {options : Options} (h : checkConflict options = .ok ()) :
    options.conflict = .builtin .error := by
  unfold checkConflict at h
  split at h
  · assumption
  · cases h

theorem map_code_tasksOn (work : Work) (keys : List Value) :
    (tasksOn work keys).map (fun task => task.key.code) = keys.map Value.code := by
  rw [tasksOn, List.map_map]
  calc keys.zipIdx.map (fun place => place.1.code)
    _ = (keys.zipIdx.map Prod.fst).map Value.code := by rw [List.map_map]; rfl
    _ = keys.map Value.code := by rw [List.zipIdx_map_fst]

theorem mem_tasksOn {work : Work} {keys : List Value} {task : Task}
    (h : task ∈ tasksOn work keys) : task.key ∈ keys ∧ task.work = work := by
  obtain ⟨⟨key, index⟩, hm, rfl⟩ := List.mem_map.1 h
  exact ⟨List.fst_mem_of_mem_zipIdx hm, rfl⟩

theorem planned_tasksOn (work : Work) {keys : List Value}
    (h : ∀ key ∈ keys, key.isKey = true) : Planned 0 (tasksOn work keys) := by
  refine ⟨fun task ht => h _ (mem_tasksOn ht).1, ?_⟩
  rw [length_tasksOn, tasksOn, List.map_map]
  exact List.zipIdx_map_snd 0 keys

/-- The targets that the tasks of a request are about. -/
def Lists (setup : Setup) (db : Database) (calls : List Call) (field : String)
    (selector : Selector Term) (mutation : Mutation Term) (tasks : List Task) : Prop :=
  match mutation with
  | .insert payload => tasks.length = payloadSize payload
  | .update patch => ∃ keys, Selected setup db calls field selector keys ∧
    tasks = tasksOn (.update patch) keys
  | .delete => ∃ keys, Selected setup db calls field selector keys ∧ tasks = tasksOn .delete keys

theorem selectedTasks_ends (hp : 0 < setup.pageSize) (h : s.database.InOrder)
    (hf : s.database.keyField? request.table = some request.keyField) {selector : Selector Term}
    (ht : selector.tableName = request.table) (work : Work) :
    Ensures setup s (selectedTasks request selector work) fun r _ => ∀ tasks, r = .ok tasks →
      ∃ keys, Selected setup s.database s.calls request.keyField selector keys ∧
        tasks = tasksOn work keys := by
  refine Ensures.bind (keys_selected hp h hf ht) ?_ fun f t _ _ h => nomatch h
  rintro keys t hk _ ⟨⟩
  exact ⟨keys, hk keys rfl, rfl⟩

/-- A plan has keys and places, lists the targets, and holds what the request holds. -/
theorem tasks_planned (hp : 0 < setup.pageSize) (h : s.database.InOrder)
    (hf : s.database.keyField? request.table = some request.keyField) {selector : Selector Term}
    (ht : selector.tableName = request.table) (mutation : Mutation Term) :
    Ensures setup s (tasks request selector mutation) fun r _ => ∀ tasks, r = .ok tasks →
      Planned 0 tasks ∧ Lists setup s.database s.calls request.keyField selector mutation tasks ∧
        (Term.SettledMutation mutation → ∀ task ∈ tasks, task.IsSettled) := by
  have selected : ∀ keys, Selected setup s.database s.calls request.keyField selector keys →
      ∀ key ∈ keys, key.isKey = true := fun keys hs => hs.isKey h (ht ▸ hf)
  cases mutation with
  | insert payload =>
    cases selector with
    | table name =>
      refine ensures_ofExcept_bind (fun found hfound => ?_) fun f _ _ h => nomatch h
      have each := documents_ends hfound
      refine (insertTasks_planned request.keyField 0 found).mono fun r t hr tasks hok => ?_
      obtain ⟨planned, count, all⟩ := hr tasks hok
      refine ⟨planned, ?_, fun hs => all fun d hd => ?_⟩
      · rw [Lists, count, ← each.length_eq, length_items]
      · obtain ⟨t, hm, hd⟩ := exists_of_forall₂ each hd
        exact document_settled hd (isSettled_of_mem_items hs hm)
    | _ => exact fun _ h => nomatch h
  | update patch =>
    refine ensures_ofExcept_bind (fun _ _ => ?_) fun f _ _ h => nomatch h
    refine ensures_ofExcept_bind (fun _ _ => ?_) fun f _ _ h => nomatch h
    refine (selectedTasks_ends hp h hf ht _).mono fun r t hr tasks hok => ?_
    obtain ⟨keys, hs, rfl⟩ := hr tasks hok
    refine ⟨planned_tasksOn _ (selected keys hs), ⟨keys, hs, rfl⟩, fun hpatch task hm => ?_⟩
    rw [Task.IsSettled, (mem_tasksOn hm).2]
    exact hpatch
  | delete =>
    refine ensures_ofExcept_bind (fun _ _ => ?_) fun f _ _ h => nomatch h
    refine (selectedTasks_ends hp h hf ht _).mono fun r t hr tasks hok => ?_
    obtain ⟨keys, hs, rfl⟩ := hr tasks hok
    refine ⟨planned_tasksOn _ (selected keys hs), ⟨keys, hs, rfl⟩, fun _ task hm => ?_⟩
    rw [Task.IsSettled, (mem_tasksOn hm).2]
    trivial

end Target

end Folio
