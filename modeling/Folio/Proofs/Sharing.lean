import Folio.Proofs.OnePass
import Mathlib.Data.List.Nodup
/-!
# Shared fields

The same field node may stand at several places of an expression. A default replaces the node, and
with it every place where it stands, so sharing does no harm where the default misses the field at
all of these places. Where it misses the field at one place only, the others are given the fallback
too: an inner default does not come to its own fallback, and a path through the node is read from
the fallback of the shorter path.
-/

namespace Folio

namespace Expression

/-- The expression without the identities of its field nodes. -/
def shape : Expression Term → Expression Term
  | .row => .row
  | .const value => .const value
  | .field _ base name => .field 0 base.shape name
  | .operation op left right => .operation op left.shape right.shape
  | .not inner => .not inner.shape
  | .default inner fallback => .default inner.shape fallback.shape
  | .hasFields base names => .hasFields base.shape names
  | .branch condition value otherwise => .branch condition.shape value.shape otherwise.shape

variable {document : Term}

theorem isField_shape (e : Expression Term) : e.shape.isField = e.isField := by
  cases e <;> rfl

/-- A pass knows nothing of the identities of field nodes. -/
theorem onePass_shape (e : Expression Term) (fill : Option Evaluated) :
    e.shape.onePass document fill = e.onePass document fill := by
  induction e generalizing fill with
  | row => rfl
  | const value => rfl
  | field node base name ih => rw [shape, onePass, onePass, ih]
  | operation op left right ihl ihr =>
    rw [shape]
    unfold onePass
    rw [ihl, ihr, isField_shape, isField_shape]
  | not inner ih => rw [shape, onePass, onePass, ih]
  | default inner fallback ihi ihf => rw [shape, onePass, onePass, ihi, ihf]
  | hasFields base names ih => rw [shape, onePass, onePass, ih]
  | branch condition value otherwise ihc ihv iho =>
    rw [shape, onePass, onePass, ihc, ihv, iho]

theorem onePass_of_shape {e f : Expression Term} (h : e.shape = f.shape)
    (fill : Option Evaluated) : e.onePass document fill = f.onePass document fill := by
  rw [← onePass_shape e, h, onePass_shape f]

/-! ## Nodes that stand at one place -/

/-- A default that wraps every node once misses a node at its place or nowhere. -/
theorem missesAlike_of_nodup {inner : Expression Term} (apart : inner.fieldNodes.Nodup) :
    MissesAlike document inner := by
  have split := (fieldNodes_perm false inner).nodup_iff.1 apart
  obtain ⟨once, -, disjoint⟩ := List.nodup_append.1 split
  intro r hr missed
  refine ⟨fun hidden => disjoint _ (List.mem_map_of_mem hr) _ hidden rfl, fun s hs same => ?_⟩
  rw [List.inj_on_of_nodup_map once hs hr same]
  exact missed

theorem isClear_of_nodup {e : Expression Term} (apart : e.fieldNodes.Nodup) :
    e.IsClear document := by
  induction e with
  | row => trivial
  | const value => trivial
  | field node base name ih => exact ih (List.nodup_cons.1 apart).2
  | operation op left right ihl ihr =>
    exact ⟨ihl (List.nodup_append.1 apart).1, ihr (List.nodup_append.1 apart).2.1⟩
  | not inner ih => exact ih apart
  | default inner fallback ihi ihf =>
    obtain ⟨inside, beside, -⟩ := List.nodup_append.1 apart
    exact ⟨missesAlike_of_nodup inside, ihi inside, ihf beside⟩
  | hasFields base names ih => exact ih apart
  | branch condition value otherwise ihc ihv iho =>
    obtain ⟨front, last, -⟩ := List.nodup_append.1 apart
    obtain ⟨first, second, -⟩ := List.nodup_append.1 front
    exact ⟨ihc first, ihv second, iho last⟩

/-! ## Shared and separate nodes -/

/-- Where each default misses a shared field at every place where it stands, or nowhere, the
expression has the value, or the kind of fault with its message, of any copy of it in which every
field node stands at one place. -/
theorem value_of_separate {e copy : Expression Term} (clear : e.IsClear document)
    (shape : copy.shape = e.shape) (apart : copy.fieldNodes.Nodup) :
    unnamed (e.value document) = unnamed (copy.value document) := by
  rw [unnamed_value clear, unnamed_value (isClear_of_nodup apart), onePass_of_shape shape]

/-- A sum of the square of one field and another field with a default of its own, inside a default;
the square reads two nodes, which may be one. -/
def score (first second : Nat) : Expression Term :=
  .default (.operation (.arithmetic .add)
    (.operation (.arithmetic .mul) (.field first .row "views") (.field second .row "views"))
    (.default (.field 2 .row "likes") (.const (.int 5)))) (.const (.int 3))

theorem value_of_separate_score :
    (score 0 0).IsClear (.mapping [(.text "views", .null)]) ∧
      (score 0 1).shape = (score 0 0).shape ∧ (score 0 1).fieldNodes.Nodup ∧
      unnamed ((score 0 0).value (.mapping [(.text "views", .null)])) =
        unnamed ((score 0 1).value (.mapping [(.text "views", .null)])) ∧
      (score 0 0).value (.mapping [(.text "views", .null)]) = .ok (.int 14) := by
  have clear : (score 0 0).IsClear (.mapping [(.text "views", .null)]) := by
    refine ⟨?_, ⟨⟨trivial, trivial⟩, missesAlike_of_nodup (by decide), trivial, trivial⟩, trivial⟩
    -- Both places read one node, as an operand.
    intro r hr missed
    have one : ∀ s ∈ [Reading.mk 0 .row "views" true, ⟨0, .row, "views", true⟩],
        s = ⟨0, .row, "views", true⟩ := by
      simp
    rw [one r hr] at missed ⊢
    refine ⟨by decide, fun s hs _ => ?_⟩
    rw [one s hs]
    exact missed
  exact ⟨clear, rfl, by decide, value_of_separate clear rfl (by decide), rfl⟩

/-- A sum of a field and of a field below it, inside a default; the node of the upper field may be
one at both places. -/
def overlapping (first second : Nat) : Expression Term :=
  .default (.operation (.arithmetic .add) (.field first .row "a")
    (.field 2 (.field second .row "a") "b")) (.const (.int 1))

/-- On the empty document the shared node hands its fallback to the path through it, which is no
object; separate nodes are each replaced, the path as a whole. -/
theorem overlapping_differs :
    (overlapping 0 1).shape = (overlapping 0 0).shape ∧ (overlapping 0 1).fieldNodes.Nodup ∧
      (overlapping 0 0).value (.mapping []) = .error (.notObject "b" "int") ∧
      (overlapping 0 1).value (.mapping []) = .ok (.int 2) :=
  ⟨rfl, by decide, rfl, rfl⟩

end Expression

end Folio
