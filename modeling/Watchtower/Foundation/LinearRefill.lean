import Mathlib.Algebra.Order.Field.Basic
import Mathlib.Tactic.Linarith
import Mathlib.Tactic.Ring
import Watchtower.Foundation.TimedLog

/-!
# Budgets with linear refill

A budget of `cap` units is refilled at a constant rate and never exceeds `cap`;
each grant takes one unit. The level is a function of the times of the grants, so
whatever asks in vain leaves no trace in it.
-/

namespace Watchtower.LinearRefill

open TimedLog

universe u
variable {K : Type u} [Field K] [LinearOrder K] [IsStrictOrderedRing K]
variable (cap rate : K)

/-- The level at a time, from the times of the grants before it, the latest first. -/
def level : List K → K → K
  | [], _ => cap
  | g :: rest, t => min cap (level rest g - 1 + rate * (t - g))

omit [IsStrictOrderedRing K] in
theorem level_le (grants : List K) (t : K) : level cap rate grants t ≤ cap := by
  cases grants with
  | nil => exact le_rfl
  | cons g rest => exact min_le_left _ _

/-- The level is the tightest of the bounds that the single grants set. -/
theorem le_level_iff {x : K} {grants : List K} {t : K} :
    x ≤ level cap rate grants t ↔ x ≤ cap ∧
      ∀ (i : Nat) g, grants[i]? = some g → x + (i + 1) ≤ cap + rate * (t - g) := by
  induction grants generalizing x t with
  | nil => simp [level]
  | cons g rest ih =>
    rw [level, le_min_iff]
    have hstep : x ≤ level cap rate rest g - 1 + rate * (t - g) ↔
        x + 1 - rate * (t - g) ≤ level cap rate rest g := by
      constructor <;> intro h <;> linarith
    rw [hstep, ih]
    constructor
    · rintro ⟨hx, hfirst, hrest⟩
      refine ⟨hx, fun i a ha => ?_⟩
      cases i with
      | zero =>
        rw [List.getElem?_cons_zero, Option.some.injEq] at ha
        rw [← ha, Nat.cast_zero]
        linarith
      | succ i =>
        have h := hrest i a (by simpa using ha)
        rw [Nat.cast_succ, mul_sub] at *
        linarith
    · rintro ⟨hx, hall⟩
      refine ⟨hx, ?_, fun i a ha => ?_⟩
      · have h := hall 0 g rfl
        rw [Nat.cast_zero] at h
        linarith
      · have h := hall (i + 1) a (by simpa using ha)
        rw [Nat.cast_succ, mul_sub] at *
        linarith

/-- Refilling twice is refilling once. -/
theorem refill_refill (hrate : 0 ≤ rate) (x : K) {since mid now : K} (h : mid ≤ now) :
    min cap (min cap (x + rate * (mid - since)) + rate * (now - mid)) =
      min cap (x + rate * (now - since)) := by
  have hmore : 0 ≤ rate * (now - mid) := mul_nonneg hrate (sub_nonneg.mpr h)
  have hsum : x + rate * (mid - since) + rate * (now - mid) = x + rate * (now - since) := by
    ring
  rw [← min_add_add_right, hsum, ← min_assoc, min_eq_left (le_add_of_nonneg_right hmore)]

/-- With a log that is sparse over the time of a full refill, a unit is left unless the
last `cap` grants leave less than the time of one unit. -/
theorem one_le_level_iff {k : Nat} {width : K} (hwidth : 0 < width) {grants : List K}
    (sparse : Sparse (k + 1) width grants)
    {t : K} (past : ∀ g ∈ grants, g ≤ t) :
    1 ≤ level ((k + 1 : Nat) : K) ((k + 1 : Nat) / width) grants t ↔
      ∀ g, grants[k]? = some g → width ≤ (k + 1 : Nat) * (t - g) := by
  have hcap : (0 : K) < (k + 1 : Nat) := by exact_mod_cast Nat.succ_pos k
  rw [le_level_iff]
  have hclear : ∀ (i : Nat) (g : K),
      1 + ((i : K) + 1) ≤ (k + 1 : Nat) + (k + 1 : Nat) / width * (t - g) ↔
        ((i : K) + 1 - k) * width ≤ (k + 1 : Nat) * (t - g) := by
    intro i g
    rw [div_mul_eq_mul_div, ← sub_le_iff_le_add', le_div_iff₀ hwidth]
    push_cast
    constructor <;> intro h <;> linarith
  constructor
  · rintro ⟨-, h⟩ g hg
    have := (hclear k g).mp (h k g hg)
    simpa using this
  · intro hlast
    refine ⟨by push_cast; linarith [(Nat.cast_nonneg k : (0 : K) ≤ k)], fun i g hg => ?_⟩
    rw [hclear]
    obtain ⟨r, j, hr, rfl⟩ : ∃ r j, r < k + 1 ∧ i = r + (k + 1) * j :=
      ⟨i % (k + 1), i / (k + 1), Nat.mod_lt _ (Nat.succ_pos k), (Nat.mod_add_div _ _).symm⟩
    have hrlt : r < grants.length := by
      have := (List.getElem?_eq_some_iff.mp hg).1
      omega
    have hr' : grants[r]? = some grants[r] := List.getElem?_eq_getElem hrlt
    have hback := sparse.le_of_mul hr' hg
    have hunit : ((r : K) + 1 - k) * width ≤ (k + 1 : Nat) * (t - grants[r]) := by
      rcases Nat.lt_or_ge r k with h | h
      · have hneg : (r : K) + 1 - k ≤ 0 := by
          have : (r : K) + 1 ≤ k := by exact_mod_cast h
          linarith
        have hpast := sub_nonneg.mpr (past grants[r] (List.getElem_mem hrlt))
        exact le_trans (mul_nonpos_of_nonpos_of_nonneg hneg (le_of_lt hwidth))
          (mul_nonneg (le_of_lt hcap) hpast)
      · obtain rfl : r = k := by omega
        have := hlast _ hr'
        simpa using this
    have hspan : (k + 1 : Nat) * ((j : K) * width) ≤ (k + 1 : Nat) * (grants[r] - g) := by
      rw [nsmul_eq_mul] at hback
      exact mul_le_mul_of_nonneg_left (by linarith) (le_of_lt hcap)
    push_cast at hunit hspan ⊢
    linarith

/-- Of more than `k` entries with a property, one stands behind at least `k` others. -/
theorem exists_getElem_of_countP {α : Type*} {p : α → Bool} {k : Nat} {log : List α}
    (more : k < log.countP p) : ∃ i a, k ≤ i ∧ log[i]? = some a ∧ p a := by
  induction log generalizing k with
  | nil => simp at more
  | cons a rest ih =>
    by_cases ha : p a
    · rw [List.countP_cons_of_pos ha] at more
      cases k with
      | zero => exact ⟨0, a, Nat.le_refl 0, rfl, ha⟩
      | succ k =>
        obtain ⟨i, b, hi, hb, hp⟩ := ih (show k < rest.countP p by omega)
        exact ⟨i + 1, b, by omega, by simpa using hb, hp⟩
    · rw [List.countP_cons_of_neg ha] at more
      obtain ⟨i, b, hi, hb, hp⟩ := ih more
      exact ⟨i + 1, b, by omega, by simpa using hb, hp⟩

/-- Every grant of the log found a unit. -/
def Funded : List K → Prop
  | [] => True
  | g :: rest => 1 ≤ level cap rate rest g ∧ Funded rest

/-- An interval holds no more grants than the full budget and what it refills. -/
theorem Funded.count_le (hcap : 0 ≤ cap) (hrate : 0 ≤ rate) {grants : List K}
    (funded : Funded cap rate grants) {lo hi : K} (hspan : lo ≤ hi) :
    ((grants.countP fun g => lo ≤ g ∧ g ≤ hi : Nat) : K) ≤ cap + rate * (hi - lo) := by
  have hwidth : 0 ≤ rate * (hi - lo) := mul_nonneg hrate (sub_nonneg.mpr hspan)
  induction grants with
  | nil =>
    rw [List.countP_nil, Nat.cast_zero]
    exact add_nonneg hcap hwidth
  | cons g rest ih =>
    obtain ⟨hlevel, hrest⟩ := funded
    by_cases hin : lo ≤ g ∧ g ≤ hi
    · rw [List.countP_cons_of_pos (by simpa using hin)]
      obtain ⟨hone, hbounds⟩ := (le_level_iff cap rate).mp hlevel
      cases hcount : rest.countP fun g => lo ≤ g ∧ g ≤ hi with
      | zero =>
        rw [Nat.zero_add, Nat.cast_one]
        exact le_add_of_le_of_nonneg hone hwidth
      | succ k =>
        -- the oldest grant inside has at least `k` others between it and `g`
        obtain ⟨i, old, hi', hold, hinside⟩ :=
          exists_getElem_of_countP (show k < rest.countP fun g => lo ≤ g ∧ g ≤ hi by omega)
        have hbound := hbounds i old hold
        have hlo : lo ≤ old := (of_decide_eq_true hinside).1
        have hshare : rate * (g - old) ≤ rate * (hi - lo) :=
          mul_le_mul_of_nonneg_left (sub_le_sub hin.2 hlo) hrate
        have hk : ((k : Nat) : K) ≤ i := Nat.cast_le.mpr hi'
        push_cast
        linarith
    · rw [List.countP_cons_of_neg (by simpa using hin)]
      exact ih hrest

end Watchtower.LinearRefill
