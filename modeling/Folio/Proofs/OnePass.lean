import Folio.Expression.Evaluation
import Mathlib.Data.List.Perm.Basic
/-!
# Evaluation in one pass

A default evaluates what it wraps again and again, each time with one more field node in the
substitution. Where it misses a node at every place where the node is read, or at none of them, this
comes to a single evaluation from left to right, in which the fallback is put in the place of each
missing field as it is met. Such a pass knows nothing of the identities of nodes.
-/

namespace Folio

/-- The fault without the field node that a default may replace. -/
def EvaluationFault.unnamed : EvaluationFault → EvaluationFault
  | .missing why _ => .missing why none
  | fault => fault

/-- Whether the operator is arithmetic, so that a null operand is a missing field. -/
def Operator.isArithmetic : Operator → Bool
  | .arithmetic _ => true
  | _ => false

namespace Expression

/-- The outcome without the field node that a default may replace. -/
def unnamed : Evaluated → Evaluated
  | .ok value => .ok value
  | .error fault => .error fault.unnamed

/-- Whether an expression is a field. -/
def isField {κ : Type} : Expression κ → Bool
  | .field .. => true
  | _ => false

/-! ## The pass -/

/-- The outcome of reading a field, with the fallback in the place of what is missing. Without a
fallback the field stays missing, and nothing is named that could be replaced. -/
def fillIn (fill : Option Evaluated) : Evaluated → Evaluated
  | .ok value => .ok value
  | .error (.missing why _) => fill.getD (.error (.missing why none))
  | .error fault => .error fault

/-- An arithmetic operand, which has to be present; `node` is the field that is missing else. -/
def present (op : Arithmetic) (node : Option Nat) (value : Term) : Evaluated :=
  if value.isNull then .error (.missing (.operand op) node) else .ok value

/-- An arithmetic operand, with the fallback in the place of a field that is null. -/
def fillOperand (fill : Option Evaluated) (op : Arithmetic) (isField : Bool) (value : Term) :
    Evaluated := do
  let value ← if isField && value.isNull then fill.getD (.ok value) else .ok value
  present op none value

/-- What a default comes to, when the pass over what it wraps has come to an outcome. -/
def fallBack (stand : Evaluated) : Evaluated → Evaluated
  | .ok value => if value.isNull then stand else .ok value
  | .error (.missing _ _) => stand
  | .error fault => .error fault

/-- The value of an expression in one pass, with a fallback for the fields that are missing. The
base of a field has no fallback of its own, since a path is replaced as a whole; a default has its
own for what it wraps. -/
def onePass (document : Term) (fill : Option Evaluated) : Expression Term → Evaluated
  | .row => .ok document
  | .const value => .ok value
  | .field _ base name => fillIn fill (base.onePass document none >>= readField 0 name)
  | .operation op left right =>
    match op with
    | .and => do
      let l ← left.onePass document fill
      if l.truthy then right.onePass document fill else return l
    | .or => do
      let l ← left.onePass document fill
      if l.truthy then return l else right.onePass document fill
    | .arithmetic op => do
      let l ← left.onePass document fill
      let r ← right.onePass document fill
      let l ← fillOperand fill op left.isField l
      let r ← fillOperand fill op right.isField r
      op.apply l r
    | op => do
      let l ← left.onePass document fill
      let r ← right.onePass document fill
      applyOperator op none none l r
  | .not inner => do
    let value ← inner.onePass document fill
    return .bool !value.truthy
  | .default inner fallback =>
    let stand := fallback.onePass document fill
    fallBack stand (inner.onePass document (some stand))
  | .hasFields base names => do
    let container ← base.onePass document fill
    return .bool (hasAll names container)
  | .branch condition value otherwise => do
    let c ← condition.onePass document fill
    if c.truthy then value.onePass document fill else otherwise.onePass document fill

/-! ## Where fields are read -/

/-- A place where an expression reads a field, so that a default around it may replace the field's
node. -/
structure Reading where
  node : Nat
  base : Expression Term
  name : String
  /-- Whether the field is an operand of arithmetic, where null counts as missing. -/
  asOperand : Bool

/-- The places where an expression reads fields. The base of a field is not among them, and neither
is what an inner default wraps: what is missing there is not blamed on it. -/
def readings (asOperand : Bool) : Expression Term → List Reading
  | .row => []
  | .const _ => []
  | .field node base name => [⟨node, base, name, asOperand⟩]
  | .operation op left right =>
    left.readings op.isArithmetic ++ right.readings op.isArithmetic
  | .not inner => inner.readings false
  | .default _ fallback => fallback.readings false
  | .hasFields base _ => base.readings false
  | .branch condition value otherwise =>
    condition.readings false ++ value.readings false ++ otherwise.readings false

/-- The field nodes at the other places. -/
def hidden : Expression Term → List Nat
  | .row => []
  | .const _ => []
  | .field _ base _ => base.fieldNodes
  | .operation _ left right => left.hidden ++ right.hidden
  | .not inner => inner.hidden
  | .default inner fallback => inner.fieldNodes ++ fallback.hidden
  | .hasFields base _ => base.hidden
  | .branch condition value otherwise => condition.hidden ++ value.hidden ++ otherwise.hidden

theorem append_perm_append {α : Type} {as bs cs ds es fs : List α} (h : as.Perm (bs ++ cs))
    (k : ds.Perm (es ++ fs)) : (as ++ ds).Perm ((bs ++ es) ++ (cs ++ fs)) := by
  refine (h.append k).trans ?_
  rw [List.append_assoc, List.append_assoc]
  refine List.Perm.append_left bs ?_
  rw [← List.append_assoc, ← List.append_assoc]
  exact List.perm_append_comm.append_right fs

/-- Every occurrence of a field node is a reading or hidden. -/
theorem fieldNodes_perm (asOperand : Bool) (e : Expression Term) :
    e.fieldNodes.Perm ((e.readings asOperand).map Reading.node ++ e.hidden) := by
  induction e generalizing asOperand with
  | row => exact .refl _
  | const value => exact .refl _
  | field node base name _ => exact .refl _
  | operation op left right ihl ihr =>
    simp only [fieldNodes, readings, hidden, List.map_append]
    exact append_perm_append (ihl _) (ihr _)
  | not inner ih => exact ih false
  | default inner fallback _ ihf =>
    simp only [fieldNodes, readings, hidden]
    have none : inner.fieldNodes.Perm ([] ++ inner.fieldNodes) := .refl _
    exact append_perm_append none (ihf false)
  | hasFields base names ih => exact ih false
  | branch condition value otherwise ihc ihv iho =>
    simp only [fieldNodes, readings, hidden, List.map_append]
    exact append_perm_append (append_perm_append (ihc _) (ihv _)) (iho _)

theorem node_mem_fieldNodes {e : Expression Term} {asOperand : Bool} {r : Reading}
    (h : r ∈ e.readings asOperand) : r.node ∈ e.fieldNodes :=
  (fieldNodes_perm asOperand e).symm.subset (List.mem_append_left _ (List.mem_map_of_mem h))

theorem hidden_subset (e : Expression Term) : e.hidden ⊆ e.fieldNodes := fun _ h =>
  (fieldNodes_perm false e).symm.subset (List.mem_append_right _ h)

namespace Reading

/-- What a reading finds in a document. -/
def value (document : Term) (r : Reading) : Evaluated :=
  fillIn none (r.base.onePass document none >>= readField 0 r.name)

/-- Whether a default misses the field at a reading: it is absent, or a null operand. -/
def IsMissed (document : Term) (r : Reading) : Prop :=
  (∃ why, r.value document = .error (.missing why none)) ∨
    r.asOperand = true ∧ r.value document = .ok .null

end Reading

/-- A default that wraps an expression misses a node wherever the node occurs, or nowhere. -/
def MissesAlike (document : Term) (inner : Expression Term) : Prop :=
  ∀ r ∈ inner.readings false, r.IsMissed document →
    r.node ∉ inner.hidden ∧ ∀ s ∈ inner.readings false, s.node = r.node → s.IsMissed document

/-- Every default of an expression treats the occurrences of one node alike. -/
def IsClear (document : Term) : Expression Term → Prop
  | .row => True
  | .const _ => True
  | .field _ base _ => base.IsClear document
  | .operation _ left right => left.IsClear document ∧ right.IsClear document
  | .not inner => inner.IsClear document
  | .default inner fallback =>
    MissesAlike document inner ∧ inner.IsClear document ∧ fallback.IsClear document
  | .hasFields base _ => base.IsClear document
  | .branch condition value otherwise =>
    condition.IsClear document ∧ value.IsClear document ∧ otherwise.IsClear document

/-! ## A round against the pass -/

/-- A substitution gives the fallback to readings that miss their field, and to no other node. -/
structure Fits (document : Term) (known : Substitution) (fill : Option Evaluated)
    (readings : List Reading) (hidden : List Nat) : Prop where
  filled : ∀ r ∈ readings, ∀ value, Entries.find? known r.node = some value →
    fill = some (.ok value) ∧ r.IsMissed document
  hidden : ∀ node ∈ hidden, Entries.find? known node = none

/-- What a round of evaluation under a substitution comes to, as against the pass: the same, unless
a field is missing that is not in the substitution yet. -/
inductive Follows (document : Term) (readings : List Reading) (known : Substitution)
    (fill : Option Evaluated) : Evaluated → Evaluated → Prop where
  | settled {round : Evaluated}
      (spent : ∀ why node, round = .error (.missing why (some node)) →
        Entries.has known node = true) :
      Follows document readings known fill round (unnamed round)
  | misses {why : Missing} {r : Reading} {pass : Evaluated} (mem : r ∈ readings)
      (missed : r.IsMissed document) (fresh : Entries.has known r.node = false)
      (pending : (∀ value, fill ≠ some (.ok value)) →
        pass = fill.getD (.error (.missing why none))) :
      Follows document readings known fill (.error (.missing why (some r.node))) pass

variable {document : Term} {known : Substitution} {fill : Option Evaluated}
variable {readings more : List Reading} {hidden nodes : List Nat}

theorem Fits.mono (h : Fits document known fill readings hidden) (hr : more ⊆ readings)
    (hn : nodes ⊆ hidden) : Fits document known fill more nodes :=
  ⟨fun r hm => h.filled r (hr hm), fun node hm => h.hidden node (hn hm)⟩

/-- A substitution without any node of an expression fits it, whatever the fallback. -/
theorem Fits.of_absent {e : Expression Term} (asOperand : Bool)
    (absent : ∀ node ∈ e.fieldNodes, Entries.find? known node = none) :
    Fits document known fill (e.readings asOperand) e.hidden := by
  refine ⟨fun r hr value found => ?_, fun node hn => absent node (e.hidden_subset hn)⟩
  rw [absent r.node (node_mem_fieldNodes hr)] at found
  cases found

theorem has_of_find? {node : Nat} {value : Term} (h : Entries.find? known node = some value) :
    Entries.has known node = true := by
  rw [Entries.has, h]
  rfl

theorem has_eq_false {node : Nat} (h : Entries.find? known node = none) :
    Entries.has known node = false := by
  rw [Entries.has, h]
  rfl

namespace Follows

variable {round pass : Evaluated} {value : Term}

theorem mono (h : Follows document readings known fill round pass) (sub : readings ⊆ more) :
    Follows document more known fill round pass := by
  cases h with
  | settled spent => exact .settled spent
  | misses mem missed fresh pending => exact .misses (sub mem) missed fresh pending

theorem of_ok (value : Term) : Follows document readings known fill (.ok value) (.ok value) :=
  .settled fun _ _ h => nomatch h

theorem eq_of_ok (h : Follows document readings known fill (.ok value) pass) :
    pass = .ok value := by
  cases h
  rfl

/-- What has failed stays failed, whatever comes next. -/
theorem of_error {fault : EvaluationFault}
    (h : Follows document readings known fill (.error fault) pass) (next : Term → Evaluated) :
    Follows document readings known fill (.error fault) (pass >>= next) := by
  cases h with
  | settled spent => exact .settled spent
  | misses mem missed fresh pending =>
    refine .misses mem missed fresh fun given => ?_
    rw [pending given]
    -- Without a fallback that is a value, the pass has ended as well.
    rcases fill with _ | fault | value
    · rfl
    · rfl
    · exact absurd rfl (given value)

/-- One computation after another follows the pass if both do. -/
theorem bind {next passNext : Term → Evaluated}
    (h : Follows document readings known fill round pass)
    (hn : ∀ value, Follows document readings known fill (next value) (passNext value)) :
    Follows document readings known fill (round >>= next) (pass >>= passNext) := by
  cases round with
  | error fault => exact h.of_error passNext
  | ok value =>
    rw [h.eq_of_ok]
    exact hn value

/-- What misses no field is the same for both. -/
theorem of_ne {outcome : Evaluated} (h : ∀ why node, outcome ≠ .error (.missing why node)) :
    Follows document readings known fill outcome outcome := by
  have same : unnamed outcome = outcome := by
    rcases outcome with fault | value
    · cases fault
      case missing why node => exact absurd rfl (h why node)
      all_goals rfl
    · rfl
  have follows : Follows document readings known fill outcome (unnamed outcome) :=
    .settled fun why node eq => absurd eq (h why _)
  rwa [same] at follows

/-- Where the pass has come to a value, a fallback stands for what the round misses. -/
theorem of_error_ok {fault : EvaluationFault}
    (h : Follows document readings known fill (.error fault) (.ok value)) (pass : Evaluated) :
    Follows document readings known fill (.error fault) pass := by
  generalize hp : (Except.ok value : Evaluated) = reached at h
  cases h with
  | settled _ => cases hp
  | misses mem missed fresh pending =>
    refine .misses mem missed fresh fun given => ?_
    rw [pending given] at hp
    rcases fill with _ | fault | value
    · cases hp
    · cases hp
    · exact absurd rfl (given value)

/-- Without a fallback the pass comes to what the round comes to. -/
theorem eq_unnamed (h : Follows document readings known none round pass) :
    pass = unnamed round := by
  cases h with
  | settled _ => rfl
  | misses _ _ _ pending => exact pending fun _ h => nomatch h

end Follows

/-! ## Fields -/

/-- An outcome with a field to blame for what is missing. -/
def blame (node : Nat) : Evaluated → Evaluated
  | .ok value => .ok value
  | .error fault => .error (blameField node fault)

theorem fillIn_unnamed (fill : Option Evaluated) (outcome : Evaluated) :
    fillIn fill (unnamed outcome) = fillIn fill outcome := by
  rcases outcome with fault | value
  · cases fault <;> rfl
  · rfl

theorem fillIn_none (outcome : Evaluated) : fillIn none outcome = unnamed outcome := by
  rcases outcome with fault | value
  · cases fault <;> rfl
  · rfl

theorem unnamed_unnamed (outcome : Evaluated) : unnamed (unnamed outcome) = unnamed outcome := by
  rcases outcome with fault | value
  · cases fault <;> rfl
  · rfl

theorem unnamed_bind (outcome : Evaluated) (next : Term → Evaluated) :
    unnamed (unnamed outcome >>= next) = unnamed (outcome >>= next) := by
  rcases outcome with fault | value
  · cases fault <;> rfl
  · rfl

theorem readField_eq (node : Nat) (name : String) (container : Term) :
    readField node name container = blame node (readField 0 name container) := by
  unfold readField
  split
  · rfl
  · split <;> rfl
  · rfl

theorem evaluate_field {node : Nat} (base : Expression Term) (name : String)
    (fresh : Entries.find? known node = none) :
    (field node base name).evaluate document known =
      blame node (base.evaluate document known >>= readField 0 name) := by
  rw [evaluate, fresh]
  dsimp only
  rcases base.evaluate document known with fault | container
  · rfl
  · exact readField_eq node name container

/-- The pass over a field, as the evaluation of its base tells it. -/
theorem onePass_field {base : Expression Term}
    (hb : base.onePass document none = unnamed (base.evaluate document known)) (name : String) :
    fillIn fill (base.onePass document none >>= readField 0 name) =
      fillIn fill (base.evaluate document known >>= readField 0 name) := by
  rw [hb, ← fillIn_unnamed, unnamed_bind, fillIn_unnamed]

/-- A field that is not in the substitution comes to what its reading finds. -/
theorem follows_field {r : Reading} (fresh : Entries.find? known r.node = none)
    (hb : r.base.onePass document none = unnamed (r.base.evaluate document known)) :
    Follows document [r] known fill ((field r.node r.base r.name).evaluate document known)
      ((field r.node r.base r.name).onePass document fill) := by
  have found : r.value document =
      fillIn none (r.base.evaluate document known >>= readField 0 r.name) := onePass_field hb _
  rw [evaluate_field _ _ fresh, onePass, onePass_field hb]
  generalize r.base.evaluate document known >>= readField 0 r.name = outcome at found ⊢
  rcases outcome with fault | value
  · cases fault with
    | missing why _ =>
      exact .misses List.mem_cons_self (.inl ⟨why, found⟩) (has_eq_false fresh) fun _ => rfl
    | _ => exact .settled fun _ _ h => nomatch h
  · exact .of_ok value

/-- What a field evaluates to without its node in the substitution is what its reading finds. -/
theorem value_of_evaluate {r : Reading} (fresh : Entries.find? known r.node = none)
    (hb : r.base.onePass document none = unnamed (r.base.evaluate document known)) {value : Term}
    (h : (field r.node r.base r.name).evaluate document known = .ok value) :
    r.value document = .ok value := by
  rw [evaluate_field _ _ fresh] at h
  rw [Reading.value, onePass_field hb]
  generalize r.base.evaluate document known >>= readField 0 r.name = outcome at h ⊢
  rcases outcome with fault | found
  · cases h
  · cases h
    rfl

/-- A node of the substitution stands for the fallback, and its reading misses the field. -/
theorem onePass_of_absent {r : Reading} {value : Term} {why : Missing}
    (absent : r.value document = .error (.missing why none)) :
    (field r.node r.base r.name).onePass document (some (.ok value)) = .ok value := by
  rw [Reading.value] at absent
  rw [onePass]
  generalize r.base.onePass document none >>= readField 0 r.name = outcome at absent ⊢
  rcases outcome with fault | found
  · cases fault <;> first | rfl | cases absent
  · cases absent

/-- A field follows the pass, where it is not an operand of arithmetic. -/
theorem follows_bare {node : Nat} {base : Expression Term} {name : String}
    (fits : Fits document known fill [⟨node, base, name, false⟩] base.fieldNodes)
    (hb : base.onePass document none = unnamed (base.evaluate document known)) :
    Follows document [⟨node, base, name, false⟩] known fill
      ((field node base name).evaluate document known)
      ((field node base name).onePass document fill) := by
  cases hk : Entries.find? known node with
  | none => exact follows_field (r := ⟨node, base, name, false⟩) hk hb
  | some value =>
    obtain ⟨rfl, ⟨why, absent⟩ | ⟨operand, -⟩⟩ := fits.filled _ List.mem_cons_self value hk
    · rw [evaluate, hk, onePass_of_absent (r := ⟨node, base, name, false⟩) absent]
      exact .of_ok value
    · cases operand

/-! ## Operands of arithmetic -/

theorem present_of_isNull {op : Arithmetic} {node : Option Nat} {value : Term}
    (h : value.isNull = true) : present op node value = .error (.missing (.operand op) node) :=
  if_pos h

theorem present_of_not_isNull {op : Arithmetic} {node : Option Nat} {value : Term}
    (h : value.isNull = false) : present op node value = .ok value := by
  rw [present, h]
  rfl

theorem eq_null_of_isNull {value : Term} (h : value.isNull = true) : value = .null := by
  rcases value with s | _ | _ | _ | _ | _ | _ | _ | _ | _ | _ | _ | _ | _
  · cases s <;> first | rfl | cases h
  all_goals cases h

/-- A present operand follows the pass. -/
def OperandFollows (document : Term) (known : Substitution) (fill : Option Evaluated)
    (e : Expression Term) : Prop :=
  (∃ fault, e.evaluate document known = .error fault ∧
    Follows document (e.readings true) known fill (.error fault) (e.onePass document fill)) ∨
  ∃ value passed, e.evaluate document known = .ok value ∧ e.onePass document fill = .ok passed ∧
    ∀ op, Follows document (e.readings true) known fill (present op e.fieldNode? value)
      (fillOperand fill op e.isField passed)

/-- An operand that is a field outside the substitution follows the pass. -/
theorem operandFollows_fresh {r : Reading} (operand : r.asOperand = true)
    (fresh : Entries.find? known r.node = none)
    (hb : r.base.onePass document none = unnamed (r.base.evaluate document known)) :
    (∃ fault, (field r.node r.base r.name).evaluate document known = .error fault ∧
      Follows document [r] known fill (.error fault)
        ((field r.node r.base r.name).onePass document fill)) ∨
    ∃ value, (field r.node r.base r.name).evaluate document known = .ok value ∧
      (field r.node r.base r.name).onePass document fill = .ok value ∧
      ∀ op, Follows document [r] known fill (present op (some r.node) value)
        (fillOperand fill op true value) := by
  have follows : Follows document [r] known fill _ _ := follows_field fresh hb
  cases he : (field r.node r.base r.name).evaluate document known with
  | error fault =>
    rw [he] at follows
    exact .inl ⟨fault, rfl, follows⟩
  | ok value =>
    have found := value_of_evaluate fresh hb he
    rw [he] at follows
    refine .inr ⟨value, rfl, follows.eq_of_ok, fun op => ?_⟩
    rw [fillOperand, Bool.true_and]
    cases hn : value.isNull with
    | false =>
      change Follows _ _ _ _ _ (present op none value)
      rw [present_of_not_isNull hn, present_of_not_isNull hn]
      exact .of_ok value
    -- A null operand is missing, and the fallback is put in its place.
    | true =>
      rw [eq_null_of_isNull hn] at found ⊢
      refine .misses List.mem_cons_self (.inr ⟨operand, found⟩) (has_eq_false fresh)
        fun given => ?_
      rcases fill with _ | fault | value
      · rfl
      · rfl
      · exact absurd rfl (given value)

/-- The pass over an operand that a reading misses comes to the fallback, or to a null that the
fallback is put in the place of. -/
theorem fillOperand_of_isMissed {r : Reading} (missed : r.IsMissed document) (value : Term) :
    ∃ passed, (field r.node r.base r.name).onePass document (some (.ok value)) = .ok passed ∧
      ∀ op, fillOperand (some (.ok value)) op true passed = present op none value := by
  rcases missed with ⟨why, absent⟩ | ⟨-, null⟩
  · refine ⟨value, onePass_of_absent absent, fun op => ?_⟩
    unfold fillOperand
    split <;> rfl
  · refine ⟨.null, ?_, fun op => rfl⟩
    rw [Reading.value] at null
    rw [onePass]
    generalize r.base.onePass document none >>= readField 0 r.name = outcome at null ⊢
    rcases outcome with fault | found
    · cases fault <;> cases null
    · exact null

theorem operandFollows_field {node : Nat} {base : Expression Term} {name : String}
    (fits : Fits document known fill [⟨node, base, name, true⟩] base.fieldNodes)
    (hb : base.onePass document none = unnamed (base.evaluate document known)) :
    OperandFollows document known fill (field node base name) := by
  cases hk : Entries.find? known node with
  | none =>
    obtain failed | ⟨value, he, hp, present⟩ :=
      @operandFollows_fresh document known fill ⟨node, base, name, true⟩ rfl hk hb
    · exact .inl failed
    · exact .inr ⟨value, value, he, hp, present⟩
  | some value =>
    obtain ⟨rfl, missed⟩ := fits.filled _ List.mem_cons_self value hk
    obtain ⟨passed, hp, stands⟩ := fillOperand_of_isMissed missed value
    have given : (field node base name).evaluate document known = .ok value := by
      rw [evaluate, hk]
    refine .inr ⟨value, passed, given, hp, fun op => ?_⟩
    change Follows _ _ _ _ _ (fillOperand _ op true passed)
    rw [stands op]
    cases hn : value.isNull with
    | false =>
      rw [present_of_not_isNull hn, present_of_not_isNull hn]
      exact .of_ok value
    | true =>
      rw [present_of_isNull hn, present_of_isNull hn]
      refine .settled fun why other h => ?_
      cases h
      exact has_of_find? hk

theorem operandFollows_of_follows {e : Expression Term} (plain : e.isField = false)
    (h : Follows document (e.readings true) known fill (e.evaluate document known)
      (e.onePass document fill)) : OperandFollows document known fill e := by
  have node : e.fieldNode? = none := by
    cases e <;> first | rfl | cases plain
  cases he : e.evaluate document known with
  | error fault =>
    rw [he] at h
    exact .inl ⟨fault, he, h⟩
  | ok value =>
    rw [he] at h
    refine .inr ⟨value, value, he, h.eq_of_ok, fun op => ?_⟩
    rw [node, plain]
    change Follows _ _ _ _ _ (present op none value)
    unfold present
    split
    · exact .settled fun _ _ h => nomatch h
    · exact .of_ok value

/-! ## Operations -/

theorem apply_ne_missing (op : Arithmetic) (left right : Term) (why : Missing)
    (node : Option Nat) : op.apply left right ≠ .error (.missing why node) := by
  intro h
  unfold Arithmetic.apply at h
  split at h
  · split at h
    · cases h
    · rename_i fault _
      cases fault <;> cases h
  · split at h <;> cases h

theorem applyOperator_arithmetic (op : Arithmetic) (leftNode rightNode : Option Nat)
    (left right : Term) : applyOperator (.arithmetic op) leftNode rightNode left right = (do
      let l ← present op leftNode left
      let r ← present op rightNode right
      op.apply l r) := by
  unfold applyOperator present
  dsimp only
  split
  · rfl
  · split <;> rfl

/-- No operator but an arithmetic one misses a field, or looks at the nodes of its operands. -/
theorem applyOperator_follows {op : Operator} (plain : op.isArithmetic = false)
    (leftNode rightNode : Option Nat) (left right : Term) :
    Follows document readings known fill (applyOperator op leftNode rightNode left right)
      (applyOperator op none none left right) := by
  cases op with
  | arithmetic op => cases plain
  | order relation =>
    unfold applyOperator
    dsimp only
    split
    · exact .of_ok _
    · exact .of_ne fun _ _ h => nomatch h
  | _ => exact .of_ok _

theorem arithmetic_follows {op : Arithmetic} {left right : Expression Term}
    (hl : OperandFollows document known fill left)
    (hr : OperandFollows document known fill right) :
    Follows document (left.readings true ++ right.readings true) known fill
      ((operation (.arithmetic op) left right).evaluate document known)
      ((operation (.arithmetic op) left right).onePass document fill) := by
  have subl := List.subset_append_left (left.readings true) (right.readings true)
  have subr := List.subset_append_right (left.readings true) (right.readings true)
  unfold evaluate onePass
  obtain ⟨fault, he, failed⟩ | ⟨l, l', hel, hpl, presentl⟩ := hl
  · rw [he]
    exact (failed.mono subl).of_error _
  rw [hel, hpl]
  obtain ⟨fault, he, failed⟩ | ⟨r, r', her, hpr, presentr⟩ := hr
  · rw [he]
    exact (failed.mono subr).of_error _
  rw [her, hpr]
  change Follows _ _ _ _ (applyOperator (.arithmetic op) left.fieldNode? right.fieldNode? l r)
    (fillOperand fill op left.isField l' >>= fun l =>
      fillOperand fill op right.isField r' >>= fun r => op.apply l r)
  rw [applyOperator_arithmetic]
  exact ((presentl op).mono subl).bind fun _ => ((presentr op).mono subr).bind fun _ =>
    .of_ne (apply_ne_missing op _ _)

/-! ## Defaults -/

/-- The occurrences of nodes that are not in a substitution. -/
def unknown (known : Substitution) (nodes : List Nat) : Nat :=
  nodes.countP fun node => !Entries.has known node

theorem has_put (known : Substitution) (node other : Nat) (value : Term) :
    Entries.has (Entries.put known node value) other =
      (Entries.has known other || node == other) := by
  unfold Entries.has
  by_cases h : node = other
  · rw [h, Entries.find?_put_self, beq_self_eq_true, Bool.or_true]
    rfl
  · rw [Entries.find?_put_of_ne _ _ h, beq_eq_false_iff_ne.2 h, Bool.or_false]

theorem unknown_put_lt {node : Nat} (value : Term) (mem : node ∈ nodes)
    (fresh : Entries.has known node = false) :
    unknown (Entries.put known node value) nodes < unknown known nodes := by
  have le (more : List Nat) :
      unknown (Entries.put known node value) more ≤ unknown known more := by
    refine List.countP_mono_left fun other _ h => ?_
    rw [has_put, Bool.not_or, Bool.and_eq_true] at h
    exact h.1
  obtain ⟨front, back, rfl⟩ := List.append_of_mem mem
  have front := le front
  have back := le back
  unfold unknown at front back ⊢
  rw [List.countP_append, List.countP_append, List.countP_cons_of_neg, List.countP_cons_of_pos]
  · omega
  · rw [fresh]
    rfl
  · rw [has_put, beq_self_eq_true, Bool.or_true]
    exact Bool.false_ne_true

/-- After a field was missed, the fallback in its place fits all readings of its node. -/
theorem Fits.put {inner : Expression Term} {value : Term} {r : Reading}
    (h : Fits document known (some (.ok value)) (inner.readings false) inner.hidden)
    (alike : MissesAlike document inner) (mem : r ∈ inner.readings false)
    (missed : r.IsMissed document) :
    Fits document (Entries.put known r.node value) (some (.ok value)) (inner.readings false)
      inner.hidden := by
  obtain ⟨apart, everywhere⟩ := alike r mem missed
  refine ⟨fun s hs other found => ?_, fun node hn => ?_⟩
  · by_cases same : r.node = s.node
    · rw [same, Entries.find?_put_self] at found
      cases found
      exact ⟨rfl, everywhere s hs same.symm⟩
    · rw [Entries.find?_put_of_ne _ _ same] at found
      exact h.filled s hs other found
  · have other : r.node ≠ node := fun same => apart (same ▸ hn)
    rw [Entries.find?_put_of_ne _ _ other]
    exact h.hidden node hn

/-- With a value to fall back on, the rounds of a default come to what the pass comes to. -/
theorem recover_of_ok {inner : Expression Term} {value : Term} {pass : Evaluated}
    (alike : MissesAlike document inner)
    (ih : ∀ known, Fits document known (some (.ok value)) (inner.readings false) inner.hidden →
      Follows document (inner.readings false) known (some (.ok value))
        (inner.evaluate document known) pass)
    {fuel : Nat} (enough : unknown known inner.fieldNodes < fuel)
    (fits : Fits document known (some (.ok value)) (inner.readings false) inner.hidden) :
    recover (fun more => inner.evaluate document more) (.ok value) fuel known =
      fallBack (.ok value) pass := by
  induction fuel generalizing known with
  | zero => omega
  | succ fuel again =>
    have round := ih known fits
    rw [recover]
    generalize inner.evaluate document known = outcome at round
    cases round with
    | settled spent =>
      rcases outcome with fault | found
      · cases fault
        case missing why node =>
          cases node with
          | none => rfl
          | some node =>
            dsimp only
            rw [if_pos (spent why node rfl)]
            rfl
        all_goals rfl
      · rfl
    | @misses why r _ mem missed fresh _ =>
      dsimp only
      rw [if_neg (by rw [fresh]; exact Bool.false_ne_true)]
      have fewer := unknown_put_lt value (node_mem_fieldNodes mem) fresh
      exact again (by omega) (fits.put alike mem missed)

/-- Where the fallback has failed, one round decides. -/
theorem recover_of_error {inner : Expression Term} {fault : EvaluationFault}
    {stand pass : Evaluated} {fuel : Nat}
    (hf : Follows document readings known fill (.error fault) stand)
    (hi : Follows document (inner.readings false) known (some stand)
      (inner.evaluate document known) pass) :
    Follows document readings known fill
      (recover (fun more => inner.evaluate document more) (.error fault) (fuel + 1) known)
      (fallBack stand pass) := by
  rw [recover]
  generalize inner.evaluate document known = outcome at hi
  cases hi with
  | settled spent =>
    rcases outcome with cause | found
    · cases cause
      case missing why node =>
        cases node with
        | none => exact hf
        | some node =>
          dsimp only
          rw [if_pos (spent why node rfl)]
          exact hf
      all_goals exact .settled fun _ _ h => nomatch h
    · change Follows _ _ _ _ (if found.isNull then _ else _) (if found.isNull then _ else _)
      split
      · exact hf
      · exact .of_ok found
  | @misses why r _ mem missed fresh pending =>
    dsimp only
    rw [if_neg (by rw [fresh]; exact Bool.false_ne_true)]
    cases stand with
    | ok value => exact hf.of_error_ok _
    | error cause =>
      rw [pending fun _ h => nomatch h]
      cases cause <;> exact hf

/-! ## Whole expressions -/

/-- Under every substitution that fits, an expression follows the pass. -/
def RoundsFollow (document : Term) (e : Expression Term) : Prop :=
  ∀ known fill, Fits document known fill (e.readings false) e.hidden →
    Follows document (e.readings false) known fill (e.evaluate document known)
      (e.onePass document fill)

/-- Under every substitution that fits, an operand of arithmetic follows the pass. -/
def OperandsFollow (document : Term) (e : Expression Term) : Prop :=
  ∀ known fill, Fits document known fill (e.readings true) e.hidden →
    OperandFollows document known fill e

theorem RoundsFollow.operands {e : Expression Term} (h : RoundsFollow document e)
    (plain : e.isField = false) : OperandsFollow document e := by
  have same : e.readings true = e.readings false := by
    cases e <;> first | rfl | cases plain
  intro known fill fits
  rw [same] at fits
  refine operandFollows_of_follows plain ?_
  rw [same]
  exact h known fill fits

theorem operation_follows {op : Operator} {left right : Expression Term}
    (hl : RoundsFollow document left ∧ OperandsFollow document left)
    (hr : RoundsFollow document right ∧ OperandsFollow document right) :
    RoundsFollow document (operation op left right) := by
  intro known fill fits
  have subl := List.subset_append_left (left.readings op.isArithmetic)
    (right.readings op.isArithmetic)
  have subr := List.subset_append_right (left.readings op.isArithmetic)
    (right.readings op.isArithmetic)
  have fitl := fits.mono subl (List.subset_append_left _ _)
  have fitr := fits.mono subr (List.subset_append_right _ _)
  cases op with
  | arithmetic op => exact arithmetic_follows (hl.2 known fill fitl) (hr.2 known fill fitr)
  | and =>
    have l := (hl.1 known fill fitl).mono subl
    have r := (hr.1 known fill fitr).mono subr
    refine l.bind fun value => ?_
    split
    · exact r
    · exact .of_ok value
  | or =>
    have l := (hl.1 known fill fitl).mono subl
    have r := (hr.1 known fill fitr).mono subr
    refine l.bind fun value => ?_
    split
    · exact .of_ok value
    · exact r
  | _ =>
    have l := (hl.1 known fill fitl).mono subl
    have r := (hr.1 known fill fitr).mono subr
    exact l.bind fun _ => r.bind fun _ => applyOperator_follows rfl _ _ _ _

theorem default_follows {inner fallback : Expression Term} (alike : MissesAlike document inner)
    (hi : RoundsFollow document inner) (hf : RoundsFollow document fallback) :
    RoundsFollow document (.default inner fallback) := by
  intro known fill fits
  have absent : ∀ node ∈ inner.fieldNodes, Entries.find? known node = none := fun node hn =>
    fits.hidden node (List.mem_append_left _ hn)
  have stands := hf known fill (fits.mono (List.Subset.refl _) (List.subset_append_right _ _))
  rw [evaluate, onePass]
  generalize fallback.evaluate document known = outcome at stands
  cases outcome with
  | error fault => exact recover_of_error stands (hi known _ (.of_absent false absent))
  | ok value =>
    rw [stands.eq_of_ok]
    have enough : unknown known inner.fieldNodes < inner.fieldNodes.length + 1 :=
      Nat.lt_succ_of_le List.countP_le_length
    rw [recover_of_ok alike (fun known fits => hi known _ fits) enough (.of_absent false absent)]
    refine .of_ne fun why node h => ?_
    generalize inner.onePass document (some (.ok value)) = outcome at h
    rcases outcome with fault | found
    · cases fault <;> cases h
    · rw [fallBack] at h
      split at h <;> cases h

/-- Every round of evaluation follows the pass. -/
theorem evaluate_follows (e : Expression Term) (clear : e.IsClear document) :
    RoundsFollow document e ∧ OperandsFollow document e := by
  induction e with
  | row =>
    have rounds : RoundsFollow document .row := fun _ _ _ => .of_ok document
    exact ⟨rounds, rounds.operands rfl⟩
  | const value =>
    have rounds : RoundsFollow document (.const value) := fun _ _ _ => .of_ok value
    exact ⟨rounds, rounds.operands rfl⟩
  | field node base name ih =>
    have inside {known fill} (asOperand : Bool)
        (fits : Fits document known fill [⟨node, base, name, asOperand⟩] base.fieldNodes) :
        base.onePass document none = unnamed (base.evaluate document known) :=
      ((ih clear).1 known none (.of_absent false fits.hidden)).eq_unnamed
    exact ⟨fun _ _ fits => follows_bare fits (inside false fits),
      fun _ _ fits => operandFollows_field fits (inside true fits)⟩
  | operation op left right ihl ihr =>
    have rounds : RoundsFollow document (operation op left right) :=
      operation_follows (ihl clear.1) (ihr clear.2)
    exact ⟨rounds, rounds.operands rfl⟩
  | not inner ih =>
    have rounds : RoundsFollow document (.not inner) := fun known fill fits =>
      ((ih clear).1 known fill fits).bind fun _ => .of_ok _
    exact ⟨rounds, rounds.operands rfl⟩
  | default inner fallback ihi ihf =>
    obtain ⟨alike, inside, beside⟩ := clear
    have rounds := default_follows alike (ihi inside).1 (ihf beside).1
    exact ⟨rounds, rounds.operands rfl⟩
  | hasFields base names ih =>
    have rounds : RoundsFollow document (.hasFields base names) := fun known fill fits =>
      ((ih clear).1 known fill fits).bind fun _ => .of_ok _
    exact ⟨rounds, rounds.operands rfl⟩
  | branch condition value otherwise ihc ihv iho =>
    obtain ⟨clearc, clearv, clearo⟩ := clear
    have rounds : RoundsFollow document (.branch condition value otherwise) := by
      intro known fill fits
      have subc : condition.readings false ⊆ (branch condition value otherwise).readings false :=
        List.subset_append_of_subset_left _ (List.subset_append_left _ _)
      have subv : value.readings false ⊆ (branch condition value otherwise).readings false :=
        List.subset_append_of_subset_left _ (List.subset_append_right _ _)
      have subo : otherwise.readings false ⊆ (branch condition value otherwise).readings false :=
        List.subset_append_right _ _
      have c := (ihc clearc).1 known fill (fits.mono subc
        (List.subset_append_of_subset_left _ (List.subset_append_left _ _)))
      have v := (ihv clearv).1 known fill (fits.mono subv
        (List.subset_append_of_subset_left _ (List.subset_append_right _ _)))
      have o := (iho clearo).1 known fill (fits.mono subo (List.subset_append_right _ _))
      refine (c.mono subc).bind fun found => ?_
      split
      · exact v.mono subv
      · exact o.mono subo
    exact ⟨rounds, rounds.operands rfl⟩

/-- Where every default misses a node everywhere or nowhere, the value of an expression is that of
one pass. -/
theorem unnamed_value {e : Expression Term} (clear : e.IsClear document) :
    unnamed (e.value document) = e.onePass document none :=
  ((evaluate_follows e clear).1 [] none (.of_absent false fun _ _ => rfl)).eq_unnamed.symm

end Expression

end Folio
