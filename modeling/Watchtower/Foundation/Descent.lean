import Mathlib.Logic.Basic

/-!
# Descent

Where each step of a relation takes some work off a state, no path is longer than the work
there is, and some path leads to a state without a step.
-/

namespace Watchtower.Descent

universe u
variable {State : Type u}

/-- Paths with their number of steps. -/
inductive Path (Step : State → State → Prop) : Nat → State → State → Prop where
  | here (s : State) : Path Step 0 s s
  | step {n : Nat} {s t v : State} : Path Step n s t → Step t v → Path Step (n + 1) s v

def Stuck (Step : State → State → Prop) (s : State) : Prop := ∀ t, ¬ Step s t

/-- Steps that keep to the good states, and take work off each of them. -/
structure Descends (Step : State → State → Prop) (Good : State → Prop) (work : State → Nat) :
    Prop where
  good : ∀ s t, Good s → Step s t → Good t
  less : ∀ s t, Good s → Step s t → work t < work s

variable {Step : State → State → Prop} {Good : State → Prop} {work : State → Nat}

theorem Path.good (descends : Descends Step Good work) {n : Nat} {s t : State}
    (path : Path Step n s t) (start : Good s) : Good t := by
  induction path with
  | here => exact start
  | step _ hstep ih => exact descends.good _ _ (ih start) hstep

theorem Path.length_add_work_le (descends : Descends Step Good work) {n : Nat} {s t : State}
    (path : Path Step n s t) (start : Good s) : n + work t ≤ work s := by
  induction path with
  | here => exact Nat.le_of_eq (Nat.zero_add _)
  | step path hstep ih =>
    have hless := descends.less _ _ (path.good descends start) hstep
    have hpast := ih start
    omega

/-- The induction is on the work that is left where the path has come to. -/
theorem Path.continued (descends : Descends Step Good work) {n : Nat} {s t : State}
    (path : Path Step n s t) (start : Good s) : ∃ m v, Path Step m s v ∧ Stuck Step v := by
  induction hwork : work t using Nat.strongRecOn generalizing n t with
  | ind left ih =>
    by_cases stuck : Stuck Step t
    · exact ⟨n, t, path, stuck⟩
    · rw [Stuck, not_forall_not] at stuck
      obtain ⟨v, hstep⟩ := stuck
      have hless := descends.less t v (path.good descends start) hstep
      exact ih (work v) (hwork ▸ hless) (path.step hstep) rfl

theorem exists_stuck (descends : Descends Step Good work) {s : State} (start : Good s) :
    ∃ n t, Path Step n s t ∧ Stuck Step t :=
  (Path.here s).continued descends start

end Watchtower.Descent
