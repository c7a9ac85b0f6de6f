import Folio.Proofs.Isolation
import Folio.Proofs.Repeating
/-!
# Plans that are made again

An insert of documents that carry their keys is planned in the same way on every state. Where all
rows have kept their places, a selector that names keys finds the same ones, and a selector of a
whole table finds the same documents: a key that is read off a row is the one from before, unless
another document was written there, which may spell it in another way.
-/

namespace Folio

open Run StoreState

/-! ## Places -/

namespace Database

variable {db next : Database} {table code : String}

theorem isSome_find? (db : Database) (table code : String) :
    (db.find? table code).isSome =
      db.places.any fun place => place.2.1 == table && place.2.2 == code := by
  unfold find? places
  rw [Option.isSome_map, List.isSome_find?, List.any_map]
  rfl

/-- Where there is a document is told by the places of the rows. -/
theorem isSome_find?_of_places (h : next.places = db.places) :
    (next.find? table code).isSome = (db.find? table code).isSome := by
  rw [isSome_find?, isSome_find?, h]

theorem map_code_rowsOf (db : Database) (table : String) :
    (Target.rowsOf db table).map Row.code =
      (db.places.filter fun place => place.2.1 == table).map fun place => place.2.2 := by
  unfold Target.rowsOf places
  rw [List.filter_map, List.map_map]
  rfl

/-- The rows of a table stand side by side in two databases with the same places. -/
theorem forall₂_rowsOf (h : next.places = db.places) (table : String) :
    List.Forall₂ (fun r s : Row => r.code = s.code) (Target.rowsOf db table)
      (Target.rowsOf next table) := by
  have codes : (Target.rowsOf db table).map Row.code = (Target.rowsOf next table).map Row.code := by
    rw [map_code_rowsOf, map_code_rowsOf, h]
  rw [← List.forall₂_eq_eq_eq, List.forall₂_map_left_iff, List.forall₂_map_right_iff] at codes
  exact codes

end Database

namespace Target

variable {setup : Setup} {s t u : StoreState} {request : Request} {field table : String}
variable {tasks : List Task} {task : Task} {found : List Document} {selector : Selector Term}

/-! ## Inserts -/

/-- The tasks of documents that carry their keys, from a place on. -/
def explicitTasks (field : String) (place : Nat) (found : List Document) : List Task :=
  (found.zipIdx place).map fun (d, index) => ⟨index, d.fieldOrNull field, .insert d false⟩

theorem mem_explicitTasks {place : Nat} (h : task ∈ explicitTasks field place found) :
    ∃ d ∈ found, task.key = d.fieldOrNull field ∧ task.work = .insert d false := by
  obtain ⟨⟨d, index⟩, hm, rfl⟩ := List.mem_map.1 h
  exact ⟨d, List.fst_mem_of_mem_zipIdx hm, rfl, rfl⟩

theorem map_key_explicitTasks (place : Nat) (found : List Document) :
    (explicitTasks field place found).map Task.key =
      found.map fun d => d.fieldOrNull field := by
  rw [explicitTasks, List.map_map]
  calc (found.zipIdx place).map (fun entry => entry.1.fieldOrNull field)
    _ = ((found.zipIdx place).map Prod.fst).map fun d => d.fieldOrNull field := by
      rw [List.map_map]
      rfl
    _ = found.map fun d => d.fieldOrNull field := by rw [List.zipIdx_map_fst]

theorem taskOf_explicit {d : Document} (h : Entries.has d field = true) (count place : Nat) :
    taskOf setup field count place d = ⟨place, d.fieldOrNull field, .insert d false⟩ := by
  unfold taskOf keyed
  rw [if_pos h]

/-- Documents that carry their keys are planned in the same way on every state. -/
theorem insertTasks_explicit {place : Nat} (explicit : ∀ d ∈ found, Entries.has d field = true)
    (planned : (insertTasks field place found).exec setup s = (.ok tasks, t)) :
    tasks = explicitTasks field place found ∧
      ∀ u, (insertTasks field place found).exec setup u = (.ok tasks, u) := by
  induction found generalizing place s tasks with
  | nil =>
    cases planned
    exact ⟨rfl, fun _ => rfl⟩
  | cons d rest ih =>
    have has := explicit d List.mem_cons_self
    obtain ⟨others, rfl, hk, planned⟩ := insertTasks_split planned
    obtain ⟨rfl, again⟩ := ih (fun d hd => explicit d (List.mem_cons_of_mem _ hd)) planned
    rw [taskOf_explicit has] at hk ⊢
    refine ⟨rfl, fun u => ?_⟩
    have undrawn : { u with generated := drawn field u.generated d } = u := by
      rw [drawn, if_pos has]
    rw [exec_insertTasks_cons, taskOf_explicit has, if_pos hk, undrawn, again]
    rfl

/-! ## Keys that are named -/

theorem exec_find? (h : s.Orderly) (key : Value) :
    (Store.find? table key.toTerm).exec setup s =
      (.ok (s.database.find? table key.code), s.tick) := by
  have read := @exec_fetch setup s table key h
  unfold Store.find?
  rw [exec_session _ (connects_of_slot h.faults) (by rw [read]; rfl), read]

/-- Which of the listed keys are found depends on where there are documents. -/
theorem presentKeys_again (h : s.Orderly) (k : t.Orderly)
    (same : ∀ code,
      (t.database.find? table code).isSome = (s.database.find? table code).isSome)
    (seen : List String) (terms : List Term) :
    ((presentKeys table seen terms).exec setup t).1 =
      ((presentKeys table seen terms).exec setup s).1 := by
  induction terms generalizing seen s t with
  | nil => rfl
  | cons term rest ih =>
    unfold presentKeys
    rw [exec_bind, exec_bind, exec_ofExcept, exec_ofExcept]
    cases hv : validKey term with
    | error f => rfl
    | ok key =>
      obtain ⟨rfl, -⟩ := of_validKey hv
      dsimp only
      split
      · exact ih h k same seen
      · have rest_again := ih h.tick k.tick same (key.code :: seen)
        rw [exec_bind, exec_bind, exec_find? h, exec_find? k]
        dsimp only
        rw [exec_bind, exec_bind]
        generalize (presentKeys table _ rest).exec setup s.tick = first at rest_again ⊢
        generalize (presentKeys table _ rest).exec setup t.tick = second at rest_again ⊢
        obtain ⟨f | keys, u⟩ := first
        · obtain ⟨_, v⟩ := second
          cases rest_again
          rfl
        · obtain ⟨_, v⟩ := second
          cases rest_again
          dsimp only
          rw [same]
          rfl

/-! ## Keys that are read -/

/-- The keys of a table are read, whatever locked documents are struck by. -/
theorem exec_keys_table (pages : 0 < setup.pageSize) (orderly : s.Orderly)
    (h : s.database.InOrder) (hf : s.database.keyField? table = some field) :
    ∃ found t, (Target.keys table field (.table table)).exec setup s = (.ok found, t) := by
  have calm := @keys_undisturbed setup { s with faults := [] } (.table table) field pages h rfl hf
    trivial
  obtain ⟨-, same⟩ := keys_browses (@browsing_overlooks s.locks _ orderly.faults) table field
    (.table table) setup { s with faults := [] } rfl
  unfold Ensures at calm
  rw [Selector.tableName] at calm
  generalize (keys table field (.table table)).exec setup { s with faults := [] } = ended
    at calm same
  obtain ⟨f | found, t⟩ := ended
  · obtain ⟨-, _, _, filter, -⟩ := calm
    cases filter
  · exact ⟨found, _, same⟩

/-- Keys that are read off rows in the same places. -/
theorem respelt_of_rows {db next : Database} (h : db.InOrder) (k : next.InOrder)
    (hf : db.keyField? table = some field) (kf : next.keyField? table = some field)
    (places : next.places = db.places) {found spelt : List Value}
    (read : List.Forall₂ (fun r key => Store.keyOf field r.body = .ok key) (rowsOf db table) found)
    (again : List.Forall₂ (fun r key => Store.keyOf field r.body = .ok key) (rowsOf next table)
      spelt) :
    List.Forall₂ (Respelt table field db next) found spelt := by
  -- Two keys in one place belong to rows in one place.
  have paired := forall₂_trans (forall₂_trans (Database.forall₂_rowsOf places table) read) again
  refine paired.imp ?_
  rintro key other ⟨s, hs, ⟨r, hr, codes, hkey⟩, hother⟩
  obtain ⟨_, hown, -, hcode⟩ := keyOf_of_mem h hf hr
  cases hkey.symm.trans hown
  obtain ⟨_, hown, -, hcode'⟩ := keyOf_of_mem k kf hs
  cases hother.symm.trans hown
  refine ⟨by rw [hcode, hcode', codes], ?_⟩
  have before := @find?_of_mem_rows db (.table table) h r (List.mem_filter.2 ⟨hr, rfl⟩)
  have after := @find?_of_mem_rows next (.table table) k s (List.mem_filter.2 ⟨hs, rfl⟩)
  rw [Selector.tableName] at before after
  by_cases same : s.body = r.body
  · rw [same, hkey] at hother
    exact .inl (Except.ok.inj hother).symm
  · rw [hcode, before, codes, after]
    refine .inr ⟨fun eq => same (Option.some.inj eq), s.body, rfl, ?_⟩
    unfold Store.keyOf at hother
    split at hother
    · rename_i found
      cases hother
      exact found
    · cases hother

/-! ## Targets -/

/-- The keys of a selector are found again, if it names them or selects a whole table. -/
theorem keys_again (pages : 0 < setup.pageSize) (orderly : s.Orderly) (orderly' : t.Orderly)
    (h : s.database.InOrder) (k : t.database.InOrder)
    (hf : s.database.keyField? selector.tableName = some field)
    (kf : t.database.keyField? selector.tableName = some field)
    (places : t.database.places = s.database.places)
    (direct : ∀ table predicate, selector ≠ .filter table predicate) {found : List Value}
    (planned : (keys selector.tableName field selector).exec setup s = (.ok found, u)) :
    ∃ spelt v, (keys selector.tableName field selector).exec setup t = (.ok spelt, v) ∧
      List.Forall₂ (Respelt selector.tableName field s.database t.database) found spelt := by
  cases selector with
  | filter table predicate => exact absurd rfl (direct table predicate)
  | get table term =>
    obtain ⟨key, valid, planned⟩ := exists_of_exec_ofExcept planned
    cases planned
    refine ⟨[key], t, ?_, .cons (.refl _ _ _ _ key) .nil⟩
    rw [keys, valid]
    rfl
  | getAll table terms =>
    have again := @presentKeys_again setup s t table orderly orderly'
      (fun _ => Database.isSome_find?_of_places places) [] terms
    rw [show (presentKeys table [] terms).exec setup s = (.ok found, u) from planned] at again
    exact ⟨found, ((presentKeys table [] terms).exec setup t).2, Prod.ext again rfl,
      List.forall₂_same.2 fun key _ => .refl _ _ _ _ key⟩
  | table name =>
    obtain ⟨spelt, v, again⟩ := exec_keys_table pages orderly' k kf
    have first := @keys_selected setup s pages h name field hf (.table name) rfl found
    have second := @keys_selected setup t pages k name field kf (.table name) rfl spelt
    exact ⟨spelt, v, again, respelt_of_rows h k hf kf places
      (first (congrArg Prod.fst planned)) (second (congrArg Prod.fst again))⟩

/-- The tasks of one work on keys and on the keys that are found again. -/
theorem respells_tasksOn {db next : Database} (work : Work) {found spelt : List Value}
    (h : List.Forall₂ (Respelt request.table request.keyField db next) found spelt) :
    List.Forall₂ (Respells request db next) (tasksOn work found) (tasksOn work spelt) := by
  have run : ∀ place : Nat, List.Forall₂ (Respells request db next)
      ((found.zipIdx place).map fun indexed => ⟨indexed.2, indexed.1, work⟩)
      ((spelt.zipIdx place).map fun indexed => ⟨indexed.2, indexed.1, work⟩) := by
    induction h with
    | nil => exact fun _ => .nil
    | cons key _ ih => exact fun place => .cons ⟨rfl, rfl, key⟩ (ih (place + 1))
  exact run 0

/-- The targets of an update are found again. -/
theorem tasks_again (pages : 0 < setup.pageSize) (orderly : s.Orderly) (orderly' : t.Orderly)
    (h : s.database.InOrder) (k : t.database.InOrder) (name : selector.tableName = request.table)
    (hf : s.database.keyField? request.table = some request.keyField)
    (kf : t.database.keyField? request.table = some request.keyField)
    (places : t.database.places = s.database.places)
    (direct : ∀ table predicate, selector ≠ .filter table predicate) {patch : Term}
    (planned : (Target.tasks request selector (.update patch)).exec setup s = (.ok tasks, u)) :
    ∃ others v, (Target.tasks request selector (.update patch)).exec setup t = (.ok others, v) ∧
      List.Forall₂ (Respells request s.database t.database) tasks others := by
  obtain ⟨_, conflict, planned⟩ := exists_of_exec_ofExcept planned
  obtain ⟨_, valid, planned⟩ := exists_of_exec_ofExcept planned
  obtain ⟨found, _, first, planned⟩ := exists_of_exec_bind planned
  cases planned
  rw [← name] at hf kf first
  obtain ⟨spelt, v, again, respelt⟩ := keys_again pages orderly orderly' h k hf kf places direct
    first
  rw [name] at again respelt
  refine ⟨tasksOn (.update patch) spelt, v, ?_, respells_tasksOn _ respelt⟩
  dsimp only [Target.tasks]
  rw [conflict, valid]
  exact exec_bind_ok again

end Target

end Folio
