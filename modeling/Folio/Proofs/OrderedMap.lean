import Folio.Console
import Folio.Proofs.Codes
import Folio.Proofs.Scanning
import Mathlib.Logic.Function.Basic
/-!
# Ordered maps

What a store looks like from outside: a shelf for each table, with the name of the table's key field
and a listing of its documents by key, in the order in which the keys came. Keys of the same value
are one key, however they are spelt. Overwriting a document keeps its position, a key that was
removed comes back at the end, a locked document that is left with a failure changes nothing, and a
table that is dropped is empty. Nothing here knows of rows, codes, pages or locks.
-/

namespace Folio

/-- A key that addresses a document. -/
structure Address where
  value : Value
  isAddress : value.isAddress = true

/-- Addresses are told apart by their values: an integer and the float of its value are one. -/
instance : BEq Address := ⟨fun a b => a.value.same b.value⟩

/-- A document whose labels occur once. -/
structure Sheet where
  document : Document
  settled : document.IsSettled

/-- What is done to a locked document. -/
inductive Touch where
  | read
  /-- Writes a document, or removes the one there. -/
  | write (sheet : Option Sheet)

/-- The document that is written. -/
def Touch.sheet? : Touch → Option Sheet
  | .read => none
  | .write sheet => sheet

/-! ## Listings -/

/-- The documents of a table by key, in the order in which the keys came. -/
abbrev Listing := Entries Address Document

namespace Listing

/-- Writes a document under a key, as it will be read back, or removes the one there. -/
def write (listing : Listing) (key : Address) : Option Sheet → Listing
  | some sheet => Entries.put listing key sheet.document.reread
  | none => Entries.erase listing key

/-- What a touch of a key's document comes to, and the listing after it. -/
def touch (listing : Listing) (key : Address) : Touch → Term × Listing
  | .read => (optionalDocument (Entries.find? listing key), listing)
  | .write sheet => (.null, listing.write key sheet)

/-- What each touch of a key's document comes to, and the listing after all of them. -/
def play (listing : Listing) (key : Address) : List Touch → List Term × Listing
  | [] => ([], listing)
  | touched :: rest =>
    let (result, next) := listing.touch key touched
    let (results, left) := play next key rest
    (result :: results, left)

/-- What the touches of a key's document leave there, if they write at all. -/
def written? : List Touch → Option (Option Document)
  | [] => none
  | .read :: rest => written? rest
  | .write sheet :: rest =>
    some ((written? rest).getD (sheet.map fun written => written.document.reread))

/-- The documents that a predicate selects, when it is asked about one after the other. A function
that is the predicate knows the calls before. -/
def sift (setup : Setup) (predicate : Term) :
    List Call → List Document → Except Failure (List Document)
  | _, [] => .ok []
  | calls, document :: rest => do
    let calls := Scan.asking predicate document.toTerm calls
    let chosen ← Scan.verdict setup predicate document.toTerm calls
    let others ← sift setup predicate calls rest
    return if chosen then document :: others else others

end Listing

/-! ## Shelves -/

/-- A table: its key field, if it was created, and its documents. -/
structure Shelf where
  field : Option String
  listing : Listing

/-- What is done to a table. -/
inductive Deed where
  | create (keyField : Term)
  | drop
  | put (key : Address) (sheet : Option Sheet)
  /-- Touches a document while its key is locked, and ends well or with an exception. -/
  | locked (key : Address) (touches : List Touch) (ending : Option (ErrorKind × String))
  | find (key : Address)
  /-- Reads the documents that a predicate selects to the end. -/
  | scan (predicate : Term)
  | keys

namespace Shelf

/-- A table that was not created. -/
def empty : Shelf := ⟨none, []⟩

/-- The name of a key field as a table keeps it. A blank one stands for that of the
configuration. -/
def fieldOf (config : Config) (keyField : Term) : Except Failure String :=
  match if keyField.isBlank then config.keyField else keyField with
  | .scalar (.text s) => .ok s
  | .scalar (.bool b) => .ok (if b then "1" else "0")
  | .scalar (.number (.int i)) => .ok (toString i)
  | t => .error (.transport ("Error binding parameter of type " ++ t.typeName))

/-- What something done to a table is answered with, and the table after it. -/
def step (setup : Setup) (table : String) (shelf : Shelf) : Deed → Except Failure Answer × Shelf
  | .create keyField =>
    if table.isEmpty then (.error (.request (.tableName (.text table))), shelf)
    else
      match fieldOf setup.config keyField, shelf.field with
      | .error f, _ => (.error f, shelf)
      | .ok _, some _ => (.error (.request (.tableExists table)), shelf)
      | .ok field, none => (.ok .nothing, { shelf with field := some field })
  | .drop =>
    (if shelf.field.isSome then .ok .nothing else .error (.tableNotFound table), empty)
  | .put key sheet => (.ok .nothing, { shelf with listing := shelf.listing.write key sheet })
  | .locked key touches ending =>
    let (results, left) := shelf.listing.play key touches
    match ending with
    | none => (.ok (.actions results), { shelf with listing := left })
    | some (kind, message) => (.error (Failure.raised kind message).reported, shelf)
  | .find key => (.ok (.document (Entries.find? shelf.listing key)), shelf)
  | .scan predicate =>
    ((Listing.sift setup predicate [] (shelf.listing.map Prod.snd)).map .documents, shelf)
  | .keys =>
    (if shelf.field.isSome then .ok (.keys (shelf.listing.map fun e => e.1.value))
      else .error (.tableNotFound table), shelf)

/-- Whether a document to be written holds its key in the key field of its table. -/
def Fits (shelf : Shelf) (key : Address) (sheet : Option Sheet) : Prop :=
  ∀ field ∈ shelf.field, ∀ written ∈ sheet,
    (written.document.fieldOrNull field).same key.value = true

instance (shelf : Shelf) (key : Address) (sheet : Option Sheet) :
    Decidable (shelf.Fits key sheet) :=
  inferInstanceAs (Decidable (∀ field ∈ shelf.field, ∀ written ∈ sheet,
    (written.document.fieldOrNull field).same key.value = true))

/-- Whether all documents that come into a table hold their keys. Those that are there when it is
created do so too. -/
def Admits (setup : Setup) (shelf : Shelf) : Deed → Prop
  | .create keyField =>
    shelf.field = none → ∀ field ∈ (fieldOf setup.config keyField).toOption,
      ∀ e ∈ shelf.listing, (e.2.fieldOrNull field).same e.1.value = true
  | .put key sheet => shelf.Fits key sheet
  | .locked key touches _ => ∀ touched ∈ touches, shelf.Fits key touched.sheet?
  | _ => True

instance (setup : Setup) (shelf : Shelf) : (deed : Deed) → Decidable (shelf.Admits setup deed)
  | .create keyField =>
    inferInstanceAs (Decidable (shelf.field = none →
      ∀ field ∈ (fieldOf setup.config keyField).toOption, ∀ e ∈ shelf.listing,
        (e.2.fieldOrNull field).same e.1.value = true))
  | .put key sheet => inferInstanceAs (Decidable (shelf.Fits key sheet))
  | .locked key touches _ =>
    inferInstanceAs (Decidable (∀ touched ∈ touches, shelf.Fits key touched.sheet?))
  | .drop | .find _ | .scan _ | .keys => inferInstanceAs (Decidable True)

end Shelf

/-- What something done to a table commits under a key, if anything. -/
def Deed.commits? (key : Address) : Deed → Option (Option Document)
  | .drop => some none
  | .put written sheet =>
    if written == key then some (sheet.map fun written => written.document.reread) else none
  | .locked held touches ending =>
    if ending.isNone && held == key then Listing.written? touches else none
  | _ => none

/-! ## All tables -/

/-- Something done to one of the tables. -/
structure Operation where
  table : String
  deed : Deed

/-- The document that was committed last under a key of a table. -/
def committed (table : String) (key : Address) (ops : List Operation) : Option Document :=
  ops.foldl (fun last op => if op.table = table then (op.deed.commits? key).getD last else last)
    none

/-- A shelf for each table. -/
abbrev Catalog := String → Shelf

namespace Catalog

/-- No table was created. -/
def empty : Catalog := fun _ => .empty

/-- What an operation is answered with, and the catalog after it. -/
def step (setup : Setup) (m : Catalog) (op : Operation) : Except Failure Answer × Catalog :=
  let (answer, shelf) := (m op.table).step setup op.table op.deed
  (answer, Function.update m op.table shelf)

/-- The catalog after the operations of a run. -/
def after (setup : Setup) (m : Catalog) (ops : List Operation) : Catalog :=
  ops.foldl (fun m op => (m.step setup op).2) m

/-- What the operations of a run are answered with. -/
def answers (setup : Setup) : Catalog → List Operation → List (Except Failure Answer)
  | _, [] => []
  | m, op :: rest =>
    let (answer, next) := m.step setup op
    answer :: answers setup next rest

/-- Whether all documents that come into the tables during a run hold their keys. -/
def Admits (setup : Setup) : Catalog → List Operation → Prop
  | _, [] => True
  | m, op :: rest =>
    (m op.table).Admits setup op.deed ∧ Admits setup (m.step setup op).2 rest

/-- Whether a run is admitted can be decided along the run. -/
def decidableAdmits (setup : Setup) :
    (m : Catalog) → (ops : List Operation) → Decidable (m.Admits setup ops)
  | _, [] => .isTrue trivial
  | m, op :: rest =>
    have := decidableAdmits setup (m.step setup op).2 rest
    inferInstanceAs (Decidable
      ((m op.table).Admits setup op.deed ∧ Admits setup (m.step setup op).2 rest))

instance (setup : Setup) (m : Catalog) (ops : List Operation) : Decidable (m.Admits setup ops) :=
  decidableAdmits setup m ops

end Catalog

/-! ## Commands -/

/-- The touch as an action at the console. -/
def Touch.action : Touch → SlotAction
  | .read => .read
  | .write sheet => .write (optionalDocument (sheet.map Sheet.document))

/-- The command by which an operation is asked for. -/
def Operation.command (op : Operation) : Command :=
  match op.deed with
  | .create keyField => .create (.text op.table) keyField
  | .drop => .drop op.table
  | .put key sheet => .put op.table key.value.toTerm (optionalDocument (sheet.map Sheet.document))
  | .locked key touches ending =>
    .locked op.table key.value.toTerm (touches.map Touch.action ++
      ending.toList.map fun (kind, message) => .raise kind message)
  | .find key => .find op.table key.value.toTerm
  | .scan predicate => .scan op.table predicate
  | .keys => .keys op.table

/-- The operation as an entry at the console. -/
def Operation.entry (op : Operation) : Entry := .command op.command

/-- Two answers are one, but for the spelling of listed keys. -/
inductive Answer.Agrees : Except Failure Answer → Except Failure Answer → Prop
  | same (answer : Except Failure Answer) : Agrees answer answer
  | keys {found listed : List Value}
    (same : List.Forall₂ (fun v w => v.same w = true) found listed) :
    Agrees (.ok (.keys found)) (.ok (.keys listed))

/-- Only listed keys may differ. -/
theorem Answer.Agrees.eq {found told : Except Failure Answer} (h : Agrees found told)
    (other : ∀ listed, told ≠ .ok (.keys listed)) : found = told := by
  cases h with
  | same => rfl
  | keys => exact absurd rfl (other _)

/-! ## Facts about listings -/

namespace Address

variable {a b c : Address}

theorem beq_iff : (a == b) = true ↔ a.value.code = b.value.code :=
  (Value.code_eq_iff a.isAddress b.isAddress).symm

/-- Keys of the same value stand for each other. -/
theorem beq_congr (h : (a == b) = true) : (a == c) = (b == c) := by
  rw [Bool.eq_iff_iff, beq_iff, beq_iff, beq_iff.1 h]

theorem not_beq_of_beq (h : (a == c) = true) (apart : ¬(a == b) = true) : ¬(b == c) = true := by
  rw [beq_iff] at h apart ⊢
  exact fun same => apart (h.trans same.symm)

end Address

namespace Listing

variable {listing : Listing} {key other : Address} {setup : Setup}

/-- No key is listed twice, not even under two spellings. -/
def Distinct (listing : Listing) : Prop := listing.Pairwise fun e f => (e.1 == f.1) = false

/-- An entry after a write holds what was written under that key, or was there before. -/
theorem mem_put {e : Address × Document} {d : Document} (h : e ∈ Entries.put listing key d) :
    (e.1.value.code = key.value.code ∧ e.2 = d) ∨ e ∈ listing := by
  induction listing with
  | nil =>
    rw [Entries.put, List.mem_singleton] at h
    exact .inl (by rw [h]; exact ⟨rfl, rfl⟩)
  | cons f rest ih =>
    rw [Entries.put] at h
    split at h
    · rename_i here
      rcases List.mem_cons.1 h with rfl | h
      · exact .inl ⟨Address.beq_iff.1 here, rfl⟩
      · exact .inr (List.mem_cons_of_mem _ h)
    · rcases List.mem_cons.1 h with rfl | h
      · exact .inr List.mem_cons_self
      · exact (ih h).imp id (List.mem_cons_of_mem _)

theorem Distinct.put (h : listing.Distinct) (key : Address) (d : Document) :
    Distinct (Entries.put listing key d) := by
  induction listing with
  | nil => exact List.pairwise_singleton _ _
  | cons e rest ih =>
    obtain ⟨apart, distinct⟩ := List.pairwise_cons.1 h
    rw [Entries.put]
    split
    · exact .cons apart distinct
    · rename_i elsewhere
      refine .cons (fun f hf => ?_) (ih distinct)
      rcases mem_put hf with ⟨code, -⟩ | old
      · rw [Bool.eq_false_iff]
        rwa [Ne, Address.beq_iff, code, ← Address.beq_iff]
      · exact apart f old

theorem Distinct.write (h : listing.Distinct) (key : Address) (sheet : Option Sheet) :
    (listing.write key sheet).Distinct := by
  cases sheet with
  | some sheet => exact h.put key _
  | none => exact h.sublist (Entries.erase_sublist listing key)

/-- What was written is found, whatever its key is spelt like, and nothing else changes. -/
theorem find?_put (listing : Listing) (key other : Address) (d : Document) :
    Entries.find? (Entries.put listing key d) other =
      if key == other then some d else Entries.find? listing other := by
  induction listing with
  | nil => rfl
  | cons e rest ih =>
    rw [Entries.put]
    split
    · rename_i here
      rw [Entries.find?_cons, Entries.find?_cons, Address.beq_congr here]
      split <;> rfl
    · rename_i elsewhere
      rw [Entries.find?_cons, Entries.find?_cons, ih]
      by_cases at_other : (e.1 == other) = true
      · rw [if_pos at_other, if_neg (Address.not_beq_of_beq at_other elsewhere), if_pos at_other]
      · rw [if_neg at_other, if_neg at_other]

theorem find?_eq_none_of_apart (h : ∀ e ∈ listing, (e.1 == other) = false) :
    Entries.find? listing other = none := by
  induction listing with
  | nil => rfl
  | cons e rest ih =>
    rw [Entries.find?_cons, if_neg (by rw [h e List.mem_cons_self]; exact Bool.false_ne_true)]
    exact ih fun f hf => h f (List.mem_cons_of_mem _ hf)

theorem Distinct.find?_erase (h : listing.Distinct) (key other : Address) :
    Entries.find? (Entries.erase listing key) other =
      if key == other then none else Entries.find? listing other := by
  induction listing with
  | nil => rw [Entries.erase, Entries.find?_nil, ite_self]
  | cons e rest ih =>
    obtain ⟨apart, distinct⟩ := List.pairwise_cons.1 h
    rw [Entries.erase]
    split
    · rename_i here
      rw [Entries.find?_cons, Address.beq_congr here]
      split
      · -- The entry that was erased was the only one of its key.
        rename_i same
        refine find?_eq_none_of_apart fun f hf => ?_
        rw [Bool.eq_false_iff]
        refine fun at_other => ?_
        have one := apart f hf
        rw [Bool.eq_false_iff, Ne, Address.beq_iff, Address.beq_iff.1 here,
          Address.beq_iff.1 same, Address.beq_iff.1 at_other] at one
        exact one rfl
      · rfl
    · rename_i elsewhere
      rw [Entries.find?_cons, Entries.find?_cons, ih distinct]
      by_cases at_other : (e.1 == other) = true
      · rw [if_pos at_other, if_neg (Address.not_beq_of_beq at_other elsewhere), if_pos at_other]
      · rw [if_neg at_other, if_neg at_other]

/-- What is found after a write is what was written, under that key and no other. -/
theorem Distinct.find?_write (h : listing.Distinct) (key other : Address) (sheet : Option Sheet) :
    Entries.find? (listing.write key sheet) other =
      if key == other then sheet.map fun written => written.document.reread
      else Entries.find? listing other := by
  cases sheet with
  | some sheet => exact find?_put listing key other _
  | none => exact h.find?_erase key other

theorem Distinct.play (h : listing.Distinct) (key : Address) (touches : List Touch) :
    (listing.play key touches).2.Distinct := by
  induction touches generalizing listing with
  | nil => exact h
  | cons touch rest ih =>
    cases touch with
    | read => exact ih h
    | write sheet => exact ih (h.write key sheet)

/-- What is found after a document was touched is what was written last. -/
theorem Distinct.find?_play (h : listing.Distinct) (key other : Address) (touches : List Touch) :
    Entries.find? (listing.play key touches).2 other =
      if key == other then (written? touches).getD (Entries.find? listing other)
      else Entries.find? listing other := by
  induction touches generalizing listing with
  | nil => exact (ite_self _).symm
  | cons touch rest ih =>
    cases touch with
    | read => exact ih h
    | write sheet =>
      refine (ih (h.write key sheet)).trans ?_
      rw [h.find?_write key other sheet, written?, Option.getD_some]
      split <;> rfl

/-- A predicate that decides about each document, whatever was called before, filters them. -/
theorem sift_eq_filter {predicate : Term} {selected : Document → Bool} {documents : List Document}
    (decides : ∀ d ∈ documents, ∀ calls,
      Scan.verdict setup predicate d.toTerm calls = .ok (selected d))
    (calls : List Call) :
    sift setup predicate calls documents = .ok (documents.filter selected) := by
  induction documents generalizing calls with
  | nil => rfl
  | cons d rest ih =>
    have others := ih fun e he => decides e (List.mem_cons_of_mem _ he)
    rw [sift]
    rw [decides d List.mem_cons_self, others, List.filter_cons]
    rfl

end Listing

/-! ## Facts about runs -/

theorem Shelf.distinct_step {shelf : Shelf} (h : shelf.listing.Distinct) (setup : Setup)
    (table : String) (deed : Deed) : (shelf.step setup table deed).2.listing.Distinct := by
  cases deed with
  | create keyField =>
    unfold step
    dsimp only
    split
    · exact h
    · split <;> exact h
  | drop => exact .nil
  | put key sheet => exact h.write key sheet
  | locked key touches ending =>
    cases ending with
    | none => exact h.play key touches
    | some ending => exact h
  | find key => exact h
  | scan predicate => exact h
  | keys => exact h

/-- What is found on a shelf is what was committed, or what was found before. -/
theorem Shelf.find?_step {shelf : Shelf} (h : shelf.listing.Distinct) (setup : Setup)
    (table : String) (key : Address) (deed : Deed) :
    Entries.find? (shelf.step setup table deed).2.listing key =
      (deed.commits? key).getD (Entries.find? shelf.listing key) := by
  cases deed with
  | create keyField =>
    unfold step
    dsimp only
    split
    · rfl
    · split <;> rfl
  | drop => rfl
  | put written sheet =>
    refine (h.find?_write written key sheet).trans ?_
    rw [Deed.commits?]
    split <;> rfl
  | locked held touches ending =>
    rw [Deed.commits?]
    cases ending with
    | none =>
      refine (h.find?_play held key touches).trans ?_
      rw [Option.isNone_none, Bool.true_and]
      split <;> rfl
    | some ending => rfl
  | find other => rfl
  | scan predicate => rfl
  | keys => rfl

namespace Catalog

variable {m : Catalog} {setup : Setup}

/-- In no table a key is listed twice. -/
def Distinct (m : Catalog) : Prop := ∀ table, (m table).listing.Distinct

theorem Distinct.step (h : m.Distinct) (setup : Setup) (op : Operation) :
    (m.step setup op).2.Distinct := by
  intro table
  show (Function.update m op.table _ table).listing.Distinct
  by_cases same : table = op.table
  · subst same
    rw [Function.update_self]
    exact Shelf.distinct_step (h _) setup _ _
  · rw [Function.update_of_ne same]
    exact h table

theorem Distinct.find?_step (h : m.Distinct) (setup : Setup) (op : Operation) (table : String)
    (key : Address) :
    Entries.find? ((m.step setup op).2 table).listing key =
      if op.table = table then (op.deed.commits? key).getD (Entries.find? (m table).listing key)
      else Entries.find? (m table).listing key := by
  show Entries.find? (Function.update m op.table _ table).listing key = _
  by_cases same : op.table = table
  · subst same
    rw [Function.update_self, if_pos rfl]
    exact Shelf.find?_step (h _) setup _ key _
  · rw [Function.update_of_ne (Ne.symm same), if_neg same]

/-- What is found under a key after a run was committed last. -/
theorem find?_after (setup : Setup) (table : String) (key : Address) (ops : List Operation) :
    Entries.find? (empty.after setup ops table).listing key = committed table key ops := by
  have run : ∀ m : Catalog, m.Distinct →
      Entries.find? (m.after setup ops table).listing key =
        ops.foldl (fun last op =>
          if op.table = table then (op.deed.commits? key).getD last else last)
          (Entries.find? (m table).listing key) := by
    induction ops with
    | nil => exact fun _ _ => rfl
    | cons op ops ih =>
      intro m distinct
      rw [List.foldl_cons, ← distinct.find?_step setup op table key]
      exact ih _ (distinct.step setup op)
  exact run empty fun _ => .nil

end Catalog

end Folio
