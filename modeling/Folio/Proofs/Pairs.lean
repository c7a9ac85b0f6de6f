import Mathlib.Data.List.Forall2
/-!
# Lists in pairs

What the entries of two lists have in common, place by place: each entry has its partner, lists
paired with a third one are paired with each other, and what agrees on every pair is mapped and
counted alike.
-/

namespace Folio

variable {α β γ : Type} {R : α → β → Prop} {S : α → γ → Prop}
variable {xs : List α} {ys : List β} {zs : List γ}

theorem exists_of_forall₂ (h : List.Forall₂ R xs ys) {y : β} (hy : y ∈ ys) :
    ∃ x ∈ xs, R x y := by
  induction h with
  | nil => cases hy
  | @cons x z xs ys hxz _ ih =>
    rcases List.mem_cons.1 hy with rfl | hy
    · exact ⟨x, List.mem_cons_self, hxz⟩
    · obtain ⟨w, hw, hr⟩ := ih hy
      exact ⟨w, List.mem_cons_of_mem _ hw, hr⟩

theorem exists_of_forall₂_left (h : List.Forall₂ R xs ys) {x : α} (hx : x ∈ xs) :
    ∃ y ∈ ys, R x y :=
  exists_of_forall₂ h.flip hx

/-- Partners of one entry are partners. -/
theorem forall₂_trans (h : List.Forall₂ R xs ys) (k : List.Forall₂ S xs zs) :
    List.Forall₂ (fun y z => ∃ x ∈ xs, R x y ∧ S x z) ys zs := by
  induction h generalizing zs with
  | nil =>
    cases k
    exact .nil
  | @cons x y xs ys hxy _ ih =>
    cases k with
    | @cons _ z _ zs hxz k =>
      refine .cons ⟨x, List.mem_cons_self, hxy, hxz⟩ ((ih k).imp ?_)
      rintro y z ⟨w, hw, both⟩
      exact ⟨w, List.mem_cons_of_mem _ hw, both⟩

theorem map_eq_of_forall₂ {f : β → γ} {g : α → γ} (h : List.Forall₂ R xs ys)
    (eq : ∀ x y, R x y → f y = g x) :
    ys.map f = xs.map g := by
  induction h with
  | nil => rfl
  | cons hr _ ih => rw [List.map_cons, List.map_cons, ih, eq _ _ hr]

theorem countP_eq_of_forall₂ {p : α → Bool} {q : β → Bool} (h : List.Forall₂ R xs ys)
    (agree : ∀ x ∈ xs, ∀ y, R x y → (q y = true ↔ p x = true)) : ys.countP q = xs.countP p := by
  induction h with
  | nil => rfl
  | @cons x y xs ys hxy _ ih =>
    have first := agree x List.mem_cons_self y hxy
    have later := ih fun x hx => agree x (List.mem_cons_of_mem _ hx)
    rw [List.countP_cons, List.countP_cons, later]
    by_cases hp : p x = true
    · rw [if_pos hp, if_pos (first.2 hp)]
    · rw [if_neg hp, if_neg fun hq => hp (first.1 hq)]

end Folio
