import Watchtower.Foundation.TimedLog

/-!
# Timers that skip missed ticks

A timer with a period: a tick comes at its deadline or later, and the next deadline is the
first one after the tick among those a whole number of periods away. However late the ticks
come, no two of them share a period, so no stretch of time has more ticks than periods.
-/

namespace Watchtower.SkippedTicks

open TimedLog

/-- The rule for the next deadline, from the last one and the time of the tick. -/
structure Skips (period : Int) (next : Int → Int → Int) : Prop where
  multiple : ∀ deadline now, deadline ≤ now → period ∣ next deadline now - deadline
  after : ∀ deadline now, deadline ≤ now → now < next deadline now
  soonest : ∀ deadline now, deadline ≤ now → next deadline now ≤ now + period

/-- The times of the ticks from a deadline on. -/
inductive Ticks (next : Int → Int → Int) : Int → List Int → Prop where
  | none (deadline : Int) : Ticks next deadline []
  | tick {deadline now : Int} {later : List Int} : deadline ≤ now →
      Ticks next (next deadline now) later → Ticks next deadline (now :: later)

/-- The period that a time falls into. -/
def cell (period start t : Int) : Int := (t - start) / period

variable {period : Int} {next : Int → Int → Int}

/-- The next deadline is some whole number of periods away. -/
theorem Skips.next_eq (skips : Skips period next) (pos : 0 < period) {deadline now : Int}
    (due : deadline ≤ now) : ∃ m : Nat, next deadline now = deadline + m * period := by
  obtain ⟨m, hm⟩ := skips.multiple deadline now due
  have hafter := skips.after deadline now due
  have hproduct : 0 < period * m := by omega
  have hm_pos := Int.pos_of_mul_pos_right hproduct pos
  refine ⟨m.toNat, ?_⟩
  rw [Int.toNat_of_nonneg (Int.le_of_lt hm_pos), Int.mul_comm]
  omega

theorem cell_le_of_le (pos : 0 < period) (start : Int) {s t : Int} (h : s ≤ t) :
    cell period start s ≤ cell period start t :=
  Int.ediv_le_ediv pos (by omega)

/-- A deadline begins a period, and the tick before it is in an earlier one. -/
theorem cell_lt (pos : 0 < period) {start now deadline : Int}
    (multiple : period ∣ deadline - start) (after : now < deadline) :
    cell period start now < cell period start deadline := by
  obtain ⟨k, hk⟩ := multiple
  have hdeadline : cell period start deadline = k := by
    rw [cell, hk]
    exact Int.mul_ediv_cancel_left k (Int.ne_of_gt pos)
  rw [hdeadline, cell]
  refine Int.ediv_lt_of_lt_mul pos ?_
  have hcomm : period * k = k * period := Int.mul_comm ..
  omega

/-- The periods of the ticks go up, from that of the deadline on. -/
theorem Ticks.cells (skips : Skips period next) (pos : 0 < period) {start deadline : Int}
    {times : List Int} (ticks : Ticks next deadline times) (multiple : period ∣ deadline - start) :
    (times.map (cell period start)).Pairwise (fun a b => a + 1 ≤ b) ∧
      ∀ t ∈ times, deadline ≤ t := by
  induction ticks with
  | none => exact ⟨List.Pairwise.nil, fun t mem => absurd mem List.not_mem_nil⟩
  | @tick deadline now later due _ ih =>
    have hafter := skips.after deadline now due
    have hnext : period ∣ next deadline now - start := by
      have hsum : next deadline now - start =
          next deadline now - deadline + (deadline - start) := by omega
      rw [hsum]
      exact Int.dvd_add (skips.multiple deadline now due) multiple
    obtain ⟨hcells, hdue⟩ := ih hnext
    refine ⟨?_, fun t mem => ?_⟩
    · rw [List.map_cons, List.pairwise_cons]
      refine ⟨fun c mem => ?_, hcells⟩
      obtain ⟨t, ht, rfl⟩ := List.mem_map.mp mem
      have hearlier := cell_lt pos hnext hafter
      have hlater := cell_le_of_le pos start (hdue t ht)
      omega
    · rcases List.mem_cons.mp mem with rfl | ht
      · exact due
      · have hlate := hdue t ht
        omega

theorem cell_add_le (pos : 0 < period) (start lo hi : Int) :
    cell period start hi ≤ cell period start lo + ((hi - lo) / period + 1) := by
  have hlo := Int.lt_ediv_add_one_mul_self (lo - start) pos
  have hspan := Int.lt_ediv_add_one_mul_self (hi - lo) pos
  have hsum : ((lo - start) / period + 1 + ((hi - lo) / period + 1)) * period =
      ((lo - start) / period + 1) * period + ((hi - lo) / period + 1) * period :=
    Int.add_mul ..
  have hlt : cell period start hi <
      (lo - start) / period + 1 + ((hi - lo) / period + 1) :=
    Int.ediv_lt_of_lt_mul pos (by omega)
  rw [cell] at hlt ⊢
  rw [cell]
  omega

/-- In a closed stretch there are at most two more ticks than whole periods. -/
theorem Ticks.count_le (skips : Skips period next) (pos : 0 < period) {start : Int}
    {times : List Int} (ticks : Ticks next start times) {lo hi : Int} (span : lo ≤ hi) :
    ((times.countP fun t => lo ≤ t ∧ t ≤ hi : Nat) : Int) ≤ (hi - lo) / period + 2 := by
  have hself : period ∣ start - start := by
    rw [Int.sub_self]
    exact Int.dvd_zero _
  have hspaced : Spaced 1 (times.map (cell period start)) :=
    (ticks.cells skips pos hself).1.isChain
  have hcells := cell_le_of_le pos start span
  have hlen : 0 ≤ cell period start hi - cell period start lo := Int.sub_nonneg.mpr hcells
  have hcount := hspaced.count_le (by decide) (cell period start lo) hlen
  have hmore : (times.countP fun t => lo ≤ t ∧ t ≤ hi) ≤
      (times.map (cell period start)).countP fun c => cell period start lo ≤ c ∧
        c ≤ cell period start lo + (cell period start hi - cell period start lo) := by
    rw [List.countP_map]
    refine List.countP_mono_left fun t _ within => ?_
    simp only [decide_eq_true_eq] at within
    have hlow := cell_le_of_le pos start within.1
    have hhigh := cell_le_of_le pos start within.2
    simp only [Function.comp_apply, decide_eq_true_eq]
    omega
  have hadd := cell_add_le pos start lo hi
  rw [Int.ediv_one] at hcount
  omega

end Watchtower.SkippedTicks
