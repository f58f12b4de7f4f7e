import Mathlib.Data.List.Forall2

/-!
# Choosing from a list

What a filter with a result has chosen, against the elements it has chosen from, in the same
order and each at a place of its own.
-/

namespace Watchtower.Selection

variable {α β γ : Type*}

/-- What is chosen by a filter comes from as many elements in the same order. -/
theorem exists_of_sublist_filterMap {f : α → Option β} {xs : List α} {ys : List β}
    (h : ys.Sublist (xs.filterMap f)) :
    ∃ zs : List α, zs.Sublist xs ∧ List.Forall₂ (fun z y => f z = some y) zs ys := by
  obtain ⟨chosen, hchosen, rfl⟩ := List.sublist_filterMap_iff.mp h
  refine ⟨chosen.filter fun x => (f x).isSome, List.filter_sublist.trans hchosen, ?_⟩
  clear h hchosen
  induction chosen with
  | nil => exact .nil
  | cons x rest ih =>
    cases hx : f x with
    | none => simpa [hx] using ih
    | some y => simpa [hx] using ih

theorem forall₂_comp {R : α → β → Prop} {S : β → γ → Prop} {T : α → γ → Prop}
    (comp : ∀ x y z, R x y → S y z → T x z) {xs : List α} {ys : List β} {zs : List γ}
    (first : List.Forall₂ R xs ys) (second : List.Forall₂ S ys zs) : List.Forall₂ T xs zs := by
  induction first generalizing zs with
  | nil =>
    cases second with
    | nil => exact .nil
  | cons hxy _ ih =>
    cases second with
    | cons hyz hrest => exact .cons (comp _ _ _ hxy hyz) (ih hrest)

theorem exists_getLast_of_forall₂ {R : α → β → Prop} {xs : List α} {ys : List β}
    (h : List.Forall₂ R xs ys) {y : β} (last : ys.getLast? = some y) :
    ∃ x, xs.getLast? = some x ∧ R x y := by
  have hreverse := List.forall₂_reverse_iff.mpr h
  rw [← List.head?_reverse] at last
  obtain ⟨others, hothers⟩ := List.head?_eq_some_iff.mp last
  rw [hothers, List.forall₂_cons_right_iff] at hreverse
  obtain ⟨x, front, hxy, _, hfront⟩ := hreverse
  exact ⟨x, by rw [← List.head?_reverse, hfront, List.head?_cons], hxy⟩

/-- The last element of a kind, with the others of the list around it. -/
theorem exists_last {p : α → Prop} {xs : List α} (some : ∃ x ∈ xs, p x) :
    ∃ front y back, xs = front ++ y :: back ∧ p y ∧ ∀ z ∈ back, ¬ p z := by
  induction xs with
  | nil =>
    obtain ⟨x, mem, _⟩ := some
    exact absurd mem List.not_mem_nil
  | cons first rest ih =>
    by_cases later : ∃ x ∈ rest, p x
    · obtain ⟨front, y, back, rfl, hy, hback⟩ := ih later
      exact ⟨first :: front, y, back, rfl, hy, hback⟩
    · obtain ⟨x, mem, hx⟩ := some
      rcases List.mem_cons.mp mem with rfl | mem
      · exact ⟨[], x, rest, rfl, hx, fun z hz hpz => later ⟨z, hz, hpz⟩⟩
      · exact absurd ⟨x, mem, hx⟩ later

end Watchtower.Selection
