import Folio.Patch.Evaluation
import Folio.Patch.Merge
import Mathlib.Data.List.Nodup
/-!
# Labels that occur once

A mapping has each label once, and so has every object of a document: a value is *settled* if this
holds at any depth. Whatever is computed from settled terms is settled: copies, evaluated
expressions, merged patches, unfolded records, and the documents that validation accepts.
-/

namespace Folio

/-- An answer of one computation after another comes from an answer of the first. -/
theorem exists_of_bind_ok {ε α β : Type} {x : Except ε α} {next : α → Except ε β} {b : β}
    (h : (x >>= next) = .ok b) : ∃ a, x = .ok a ∧ next a = .ok b := by
  cases x with
  | error f => cases h
  | ok a => exact ⟨a, rfl, h⟩

theorem exists_of_map_ok {ε α β : Type} {x : Except ε α} {f : α → β} {b : β}
    (h : x.map f = .ok b) : ∃ a, x = .ok a ∧ f a = b := by
  cases x with
  | error f => cases h
  | ok a => exact ⟨a, rfl, Except.ok.inj h⟩

namespace Value

mutual

/-- Each label of an object occurs once. -/
def IsSettled : Value → Prop
  | .scalar _ => True
  | .list items => SettledItems items
  | .object fields => (fields.map Prod.fst).Nodup ∧ SettledFields fields

/-- The items of a list are settled. -/
def SettledItems : List Value → Prop
  | [] => True
  | item :: rest => item.IsSettled ∧ SettledItems rest

/-- The fields of an object are settled. -/
def SettledFields : List (String × Value) → Prop
  | [] => True
  | (_, value) :: rest => value.IsSettled ∧ SettledFields rest

end

end Value

/-- Each label of a document and of the objects inside it occurs once. -/
def Document.IsSettled (d : Document) : Prop := (Value.object d).IsSettled

namespace Term

/-- The label that a key is, if it is a text. -/
def label? : Term → Option String
  | .scalar (.text label) => some label
  | _ => none

/-- The labels of the entries of a mapping. -/
def labels (entries : List (Term × Term)) : List String := entries.filterMap fun e => e.1.label?

mutual

/-- Each label of a mapping and each field of a record occurs once. -/
def IsSettled : Term → Prop
  | .scalar _ => True
  | .list items => SettledItems items
  | .tuple items => SettledItems items
  | .mapping entries => (labels entries).Nodup ∧ SettledEntries entries
  | .mark _ => True
  | .literal value => value.IsSettled
  | .expression _ e => SettledExpression e
  | .record fields _ => (fields.map Prod.fst).Nodup ∧ SettledFields fields
  | .function _ => True
  | .policy .. => True
  | .resolver .. => True
  | .ownPolicy .. => True
  | .selector s => SettledSelector s
  | .mutation m => SettledMutation m
  | .foreign _ => True

/-- The items of a list are settled. -/
def SettledItems : List Term → Prop
  | [] => True
  | item :: rest => item.IsSettled ∧ SettledItems rest

/-- The values of the entries of a mapping are settled. -/
def SettledEntries : List (Term × Term) → Prop
  | [] => True
  | (_, value) :: rest => value.IsSettled ∧ SettledEntries rest

/-- The values of named fields are settled. -/
def SettledFields : List (String × Term) → Prop
  | [] => True
  | (_, value) :: rest => value.IsSettled ∧ SettledFields rest

/-- The constants of an expression are settled. -/
def SettledExpression : Expression Term → Prop
  | .row => True
  | .const value => value.IsSettled
  | .field _ base _ => SettledExpression base
  | .operation _ left right => SettledExpression left ∧ SettledExpression right
  | .not inner => SettledExpression inner
  | .default inner fallback => SettledExpression inner ∧ SettledExpression fallback
  | .hasFields base _ => SettledExpression base
  | .branch condition value otherwise =>
    SettledExpression condition ∧ SettledExpression value ∧ SettledExpression otherwise

/-- The terms of a selector are settled. -/
def SettledSelector : Selector Term → Prop
  | .table _ => True
  | .get _ key => key.IsSettled
  | .getAll _ keys => SettledItems keys
  | .filter _ predicate => predicate.IsSettled

/-- The terms of a mutation are settled. -/
def SettledMutation : Mutation Term → Prop
  | .insert payload => payload.IsSettled
  | .update patch => patch.IsSettled
  | .delete => True

end

/-! ## Entries -/

@[simp] theorem labels_nil : labels [] = [] := rfl

theorem labels_cons (key value : Term) (rest : List (Term × Term)) :
    labels ((key, value) :: rest) = key.label?.toList ++ labels rest := by
  cases h : key.label? <;> simp [labels, h]

theorem eq_text_of_label? {key : Term} {label : String} (h : key.label? = some label) :
    key = .text label := by
  unfold label? at h
  split at h
  · rw [← Option.some.inj h]
    rfl
  · cases h

theorem text_beq_self (label : String) : (text label == text label) = true := by
  show equalBy Scalar.alike (text label) (text label) = true
  simp [text, equalBy, Scalar.alike, Scalar.equal]

theorem settledItems_append {xs ys : List Term} :
    SettledItems (xs ++ ys) ↔ SettledItems xs ∧ SettledItems ys := by
  induction xs with
  | nil => simp [SettledItems]
  | cons x xs ih => simp [SettledItems, ih, and_assoc]

theorem isSettled_of_mem {items : List Term} (h : SettledItems items) :
    ∀ t ∈ items, t.IsSettled := by
  induction items with
  | nil => simp
  | cons item rest ih =>
    rintro t (_ | ⟨_, ht⟩)
    · exact h.1
    · exact ih h.2 t ht

theorem settled_of_find? {entries : List (Term × Term)} {key value : Term}
    (h : SettledEntries entries) (hf : Entries.find? entries key = some value) :
    value.IsSettled := by
  induction entries with
  | nil => cases hf
  | cons e rest ih =>
    obtain ⟨k, v⟩ := e
    rw [Entries.find?_cons] at hf
    split at hf
    · cases hf
      exact h.1
    · exact ih h.2 hf

theorem find?_of_mem_labels {entries : List (Term × Term)} {label : String}
    (h : label ∈ labels entries) : (Entries.find? entries (text label)).isSome = true := by
  induction entries with
  | nil => cases h
  | cons e rest ih =>
    obtain ⟨k, v⟩ := e
    rw [Entries.find?_cons]
    split
    · rfl
    · rename_i hk
      rw [labels_cons, List.mem_append] at h
      refine ih (h.resolve_left fun hl => hk ?_)
      rw [eq_text_of_label? (Option.mem_toList.1 hl)]
      exact text_beq_self label

theorem settledEntries_put {entries : List (Term × Term)} {key value : Term}
    (h : SettledEntries entries) (hv : value.IsSettled) :
    SettledEntries (Entries.put entries key value) := by
  induction entries with
  | nil => exact ⟨hv, trivial⟩
  | cons e rest ih =>
    obtain ⟨k, v⟩ := e
    simp only [Entries.put]
    split
    · exact ⟨hv, h.2⟩
    · exact ⟨h.1, ih h.2⟩

theorem settledEntries_erase {entries : List (Term × Term)} {key : Term}
    (h : SettledEntries entries) : SettledEntries (Entries.erase entries key) := by
  induction entries with
  | nil => exact h
  | cons e rest ih =>
    obtain ⟨k, v⟩ := e
    simp only [Entries.erase]
    split
    · exact h.2
    · exact ⟨h.1, ih h.2⟩

/-- Writing an entry adds its label only where no entry has the key. -/
theorem labels_put (entries : List (Term × Term)) (key value : Term) :
    labels (Entries.put entries key value) =
      labels entries ++ if Entries.has entries key then [] else key.label?.toList := by
  induction entries with
  | nil => simp [Entries.put, Entries.has, labels_cons]
  | cons e rest ih =>
    obtain ⟨k, v⟩ := e
    simp only [Entries.has] at ih
    simp only [Entries.put, Entries.has, Entries.find?_cons]
    split
    · simp [labels_cons]
    · rw [labels_cons, ih, labels_cons, List.append_assoc]
      rfl

theorem labels_put_nodup {entries : List (Term × Term)} {key value : Term}
    (h : (labels entries).Nodup) : (labels (Entries.put entries key value)).Nodup := by
  rw [labels_put]
  split
  · simpa using h
  · rename_i absent
    cases hk : key.label? with
    | none => simpa using h
    | some label =>
      refine List.nodup_append.2 ⟨h, by simp, ?_⟩
      intro a ha b hb eq
      have hb : b = label := by simpa using hb
      subst eq hb
      rw [eq_text_of_label? hk] at absent
      exact absent (find?_of_mem_labels ha)

theorem labels_erase_sublist (entries : List (Term × Term)) (key : Term) :
    (labels (Entries.erase entries key)).Sublist (labels entries) := by
  induction entries with
  | nil => exact .refl _
  | cons e rest ih =>
    obtain ⟨k, v⟩ := e
    simp only [Entries.erase]
    split
    · rw [labels_cons]
      exact List.sublist_append_right _ _
    · rw [labels_cons, labels_cons]
      exact ih.append_left _

/-! ## Copies -/

theorem label?_copy (t : Term) : t.copy.label? = t.label? := by
  cases t with
  | mark m => cases m <;> rfl
  | _ => simp [copy, label?]

theorem labels_copyEntries (entries : List (Term × Term)) :
    labels (copyEntries entries) = labels entries := by
  induction entries with
  | nil => rfl
  | cons e rest ih =>
    obtain ⟨k, v⟩ := e
    simp only [copyEntries, labels_cons, label?_copy, ih]

theorem map_fst_copyFields (fields : List (String × Term)) :
    (copyFields fields).map Prod.fst = fields.map Prod.fst := by
  induction fields with
  | nil => rfl
  | cons e rest ih => simp [copyFields, ih]

mutual

theorem isSettled_copy : (t : Term) → t.IsSettled → t.copy.IsSettled
  | .scalar _, _ => trivial
  | .list items, h => settledItems_copyItems items h
  | .tuple items, h => settledItems_copyItems items h
  | .mapping entries, h => by
    simp only [copy, IsSettled, labels_copyEntries]
    exact ⟨h.1, settledEntries_copyEntries entries h.2⟩
  | .mark m, _ => by cases m <;> trivial
  | .literal value, h => isSettled_copy value h
  | .expression _ e, h => settledExpression_copyExpression e h
  | .record fields _, h => by
    simp only [copy, IsSettled, map_fst_copyFields]
    exact ⟨h.1, settledFields_copyFields fields h.2⟩
  | .function _, _ => trivial
  | .policy .., _ => trivial
  | .resolver .., _ => trivial
  | .ownPolicy .., _ => trivial
  | .selector s, h => settledSelector_copySelector s h
  | .mutation m, h => settledMutation_copyMutation m h
  | .foreign _, _ => trivial

theorem settledItems_copyItems : (items : List Term) → SettledItems items →
    SettledItems (copyItems items)
  | [], _ => trivial
  | item :: rest, h => ⟨isSettled_copy item h.1, settledItems_copyItems rest h.2⟩

theorem settledEntries_copyEntries : (entries : List (Term × Term)) → SettledEntries entries →
    SettledEntries (copyEntries entries)
  | [], _ => trivial
  | (_, value) :: rest, h => ⟨isSettled_copy value h.1, settledEntries_copyEntries rest h.2⟩

theorem settledFields_copyFields : (fields : List (String × Term)) → SettledFields fields →
    SettledFields (copyFields fields)
  | [], _ => trivial
  | (_, value) :: rest, h => ⟨isSettled_copy value h.1, settledFields_copyFields rest h.2⟩

theorem settledExpression_copyExpression : (e : Expression Term) → SettledExpression e →
    SettledExpression (copyExpression e)
  | .row, _ => trivial
  | .const value, h => isSettled_copy value h
  | .field _ base _, h => settledExpression_copyExpression base h
  | .operation _ left right, h =>
    ⟨settledExpression_copyExpression left h.1, settledExpression_copyExpression right h.2⟩
  | .not inner, h => settledExpression_copyExpression inner h
  | .default inner fallback, h =>
    ⟨settledExpression_copyExpression inner h.1, settledExpression_copyExpression fallback h.2⟩
  | .hasFields base _, h => settledExpression_copyExpression base h
  | .branch condition value otherwise, h =>
    ⟨settledExpression_copyExpression condition h.1, settledExpression_copyExpression value h.2.1,
      settledExpression_copyExpression otherwise h.2.2⟩

theorem settledSelector_copySelector : (s : Selector Term) → SettledSelector s →
    SettledSelector (copySelector s)
  | .table _, _ => trivial
  | .get _ key, h => isSettled_copy key h
  | .getAll _ keys, h => settledItems_copyItems keys h
  | .filter _ predicate, h => isSettled_copy predicate h

theorem settledMutation_copyMutation : (m : Mutation Term) → SettledMutation m →
    SettledMutation (copyMutation m)
  | .insert payload, h => isSettled_copy payload h
  | .update patch, h => isSettled_copy patch h
  | .delete, _ => trivial

end

/-! ## Expressions -/

theorem settled_arithmetic {op : Arithmetic} {left right value : Term} (hl : left.IsSettled)
    (hr : right.IsSettled) (h : op.apply left right = .ok value) : value.IsSettled := by
  unfold Arithmetic.apply at h
  split at h
  · split at h
    · cases h
      trivial
    · cases h
  · split at h
    · cases h
      trivial
    · cases h
      exact settledItems_append.2 ⟨hl, hr⟩
    · cases h

theorem settled_readField {node : Nat} {name : String} {container value : Term}
    (hc : container.IsSettled) (h : Expression.readField node name container = .ok value) :
    value.IsSettled := by
  unfold Expression.readField at h
  split at h
  · cases h
  · split at h
    · rename_i hf
      cases h
      exact settled_of_find? hc.2 hf
    · cases h
  · cases h

theorem settled_applyOperator {op : Operator} {leftNode rightNode : Option Nat}
    {left right value : Term} (hl : left.IsSettled) (hr : right.IsSettled)
    (h : Expression.applyOperator op leftNode rightNode left right = .ok value) :
    value.IsSettled := by
  unfold Expression.applyOperator at h
  split at h
  · split at h
    · cases h
    · split at h
      · cases h
      · exact settled_arithmetic hl hr h
  · split at h
    · cases h
      trivial
    · cases h
  · cases h
    trivial
  · cases h
    trivial
  · cases h
    split
    · exact hr
    · exact hl
  · cases h
    split
    · exact hl
    · exact hr

/-- The values that stand for field nodes are settled. -/
def SettledSubstitution (known : Substitution) : Prop := ∀ entry ∈ known, entry.2.IsSettled

theorem SettledSubstitution.put {known : Substitution} {node : Nat} {value : Term}
    (h : SettledSubstitution known) (hv : value.IsSettled) :
    SettledSubstitution (Entries.put known node value) := by
  induction known with
  | nil => simpa [Entries.put, SettledSubstitution] using hv
  | cons e rest ih =>
    obtain ⟨k, v⟩ := e
    have hrest : SettledSubstitution rest := fun e he => h e (List.mem_cons_of_mem _ he)
    simp only [Entries.put]
    split
    · rintro e (_ | ⟨_, he⟩)
      · exact hv
      · exact hrest e he
    · rintro e (_ | ⟨_, he⟩)
      · exact h _ List.mem_cons_self
      · exact ih hrest e he

theorem SettledSubstitution.find? {known : Substitution} {node : Nat} {value : Term}
    (h : SettledSubstitution known) (hf : Entries.find? known node = some value) :
    value.IsSettled := by
  induction known with
  | nil => cases hf
  | cons e rest ih =>
    obtain ⟨k, v⟩ := e
    rw [Entries.find?_cons] at hf
    split at hf
    · cases hf
      exact h _ List.mem_cons_self
    · exact ih (fun e he => h e (List.mem_cons_of_mem _ he)) hf

theorem settled_recover {run : Substitution → Evaluated} {fallback : Evaluated}
    (hrun : ∀ known, SettledSubstitution known → ∀ v, run known = .ok v → v.IsSettled)
    (hf : ∀ v, fallback = .ok v → v.IsSettled) (rounds : Nat) {known : Substitution}
    (hk : SettledSubstitution known) {value : Term}
    (h : Expression.recover run fallback rounds known = .ok value) : value.IsSettled := by
  induction rounds generalizing known with
  | zero => exact hf _ h
  | succ rounds ih =>
    unfold Expression.recover at h
    split at h
    · rename_i hv
      split at h
      · exact hf _ h
      · cases h
        exact hrun _ hk _ hv
    · split at h
      · exact hf _ h
      · split at h
        -- Another field stands for the fallback, and the next round knows it.
        · exact ih (hk.put (hf _ rfl)) h
        · cases h
    · exact hf _ h
    · cases h

/-- The value of an operation is that of an operand, or computed from both. -/
theorem evaluate_operation {document value : Term} {known : Substitution} {op : Operator}
    {left right : Expression Term}
    (h : (Expression.operation op left right).evaluate document known = .ok value) :
    ∃ l, left.evaluate document known = .ok l ∧
      (value = l ∨ right.evaluate document known = .ok value ∨
        ∃ r, right.evaluate document known = .ok r ∧
          Expression.applyOperator op left.fieldNode? right.fieldNode? l r = .ok value) := by
  unfold Expression.evaluate at h
  split at h
  · obtain ⟨l, hl, h⟩ := exists_of_bind_ok h
    refine ⟨l, hl, ?_⟩
    split at h
    · exact .inr (.inl h)
    · cases h
      exact .inl rfl
  · obtain ⟨l, hl, h⟩ := exists_of_bind_ok h
    refine ⟨l, hl, ?_⟩
    split at h
    · cases h
      exact .inl rfl
    · exact .inr (.inl h)
  · obtain ⟨l, hl, h⟩ := exists_of_bind_ok h
    obtain ⟨r, hr, h⟩ := exists_of_bind_ok h
    exact ⟨l, hl, .inr (.inr ⟨r, hr, h⟩)⟩

/-- The value of a settled expression on a settled document is settled. -/
theorem settled_evaluate {document : Term} (hd : document.IsSettled) :
    (e : Expression Term) → SettledExpression e → ∀ known, SettledSubstitution known →
      ∀ value, e.evaluate document known = .ok value → value.IsSettled := by
  intro e
  induction e with
  | row =>
    rintro - known - value ⟨⟩
    exact hd
  | const v =>
    rintro he known - value ⟨⟩
    exact he
  | field node base name ih =>
    intro he known hk value h
    rw [Expression.evaluate] at h
    split at h
    -- The field was replaced by a fallback.
    · rename_i hf
      cases h
      exact hk.find? hf
    · split at h
      · rename_i hc
        exact settled_readField (ih he known hk _ hc) h
      · cases h
  | operation op left right ihl ihr =>
    intro he known hk value h
    obtain ⟨l, hl, rfl | hr | ⟨r, hr, h⟩⟩ := evaluate_operation h
    · exact ihl he.1 known hk _ hl
    · exact ihr he.2 known hk _ hr
    · exact settled_applyOperator (ihl he.1 known hk l hl) (ihr he.2 known hk r hr) h
  | not inner _ =>
    intro _ known _ value h
    rw [Expression.evaluate] at h
    obtain ⟨v, -, h⟩ := exists_of_bind_ok h
    cases h
    trivial
  | default inner fallback ihi ihf =>
    intro he known hk value h
    rw [Expression.evaluate] at h
    exact settled_recover (fun known hk => ihi he.1 known hk) (ihf he.2 known hk) _ hk h
  | hasFields base names _ =>
    intro _ known _ value h
    rw [Expression.evaluate] at h
    obtain ⟨v, -, h⟩ := exists_of_bind_ok h
    cases h
    trivial
  | branch condition value otherwise ihc ihv iho =>
    intro he known hk result h
    rw [Expression.evaluate] at h
    obtain ⟨c, -, h⟩ := exists_of_bind_ok h
    split at h
    · exact ihv he.2.1 known hk result h
    · exact iho he.2.2 known hk result h

end Term

end Folio
