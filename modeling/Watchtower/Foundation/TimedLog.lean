import Mathlib.Algebra.Order.Group.Int
import Mathlib.Algebra.Order.Group.Unbundled.Basic
import Mathlib.Data.List.Chain
import Mathlib.Order.Basic

/-!
# Logs of timed entries

Two facts about lists of times. In a log sorted by time, dropping the old entries
off the front keeps exactly the recent ones. Times that keep a minimal distance
to their predecessor are few in every interval.
-/

namespace Watchtower.TimedLog

universe u v

section Eviction
variable {Time : Type u} {α : Type v} [LinearOrder Time]

def Sorted (time : α → Time) (log : List α) : Prop :=
  log.Pairwise fun a b => time a ≤ time b

instance (time : α → Time) (log : List α) : Decidable (Sorted time log) :=
  inferInstanceAs (Decidable (log.Pairwise fun a b => time a ≤ time b))

theorem dropWhile_eq_filter {time : α → Time} {log : List α} (sorted : Sorted time log)
    (cutoff : Time) :
    (log.dropWhile fun a => time a < cutoff) = log.filter fun a => cutoff ≤ time a := by
  induction log with
  | nil => rfl
  | cons a rest ih =>
    obtain ⟨hfirst, hrest⟩ := List.pairwise_cons.mp sorted
    by_cases ha : time a < cutoff
    · rw [List.dropWhile_cons_of_pos (by simpa using ha), ih hrest,
        List.filter_cons_of_neg (by simpa using ha)]
    · have hall : (a :: rest).filter (fun a => cutoff ≤ time a) = a :: rest := by
        rw [List.filter_eq_self]
        intro b hb
        rcases List.mem_cons.mp hb with rfl | hb
        · simpa using ha
        · simpa using le_trans (le_of_not_gt ha) (hfirst b hb)
      rw [List.dropWhile_cons_of_neg (by simpa using ha), hall]

/-- Entries a smaller cutoff already dropped do not come back. -/
theorem filter_filter_of_le {time : α → Time} {early late : Time} (h : early ≤ late)
    (log : List α) :
    (log.filter fun a => early ≤ time a).filter (fun a => late ≤ time a) =
      log.filter fun a => late ≤ time a := by
  rw [List.filter_filter]
  apply List.filter_congr
  intro a _
  by_cases ha : late ≤ time a
  · simp [ha, le_trans h ha]
  · simp [ha]

end Eviction

section Window
variable {Time : Type u} {α : Type v}
variable [AddCommGroup Time] [LinearOrder Time] [IsOrderedAddMonoid Time]

/-- Take in an entry after dropping from the front what is too old for it. -/
def slide (time : α → Time) (width : Time) (log : List α) (a : α) : List α :=
  (log.dropWhile fun b => time b < time a - width) ++ [a]

/-- A log that evicts only when it is touched, and only from its front, holds
what a window over the whole history holds, as long as time does not go back. -/
theorem dropWhile_foldl_slide {time : α → Time} {width : Time} (hwidth : 0 ≤ width)
    {entries : List α} (sorted : Sorted time entries) {now : Time}
    (past : ∀ a ∈ entries, time a ≤ now) :
    ((entries.foldl (slide time width) []).dropWhile fun a => time a < now - width) =
      entries.filter fun a => now - width ≤ time a := by
  induction entries using List.reverseRecOn generalizing now with
  | nil => rfl
  | append_singleton entries a ih =>
    obtain ⟨hentries, _, hlast⟩ := List.pairwise_append.mp sorted
    have hbefore : ∀ b ∈ entries, time b ≤ time a := fun b hb => hlast b hb a (by simp)
    have hkeep : time a - width ≤ time a := sub_le_self _ hwidth
    have hnow : time a - width ≤ now - width := sub_le_sub_right (past a (by simp)) width
    have hself : [a].filter (fun b => decide (time a - width ≤ time b)) = [a] := by
      apply List.filter_eq_self.mpr
      intro b hb
      rw [List.mem_singleton.mp hb]
      exact decide_eq_true hkeep
    have hlog : (entries ++ [a]).foldl (slide time width) [] =
        (entries ++ [a]).filter fun b => time a - width ≤ time b := by
      rw [List.foldl_append, List.foldl_cons, List.foldl_nil, slide, ih hentries hbefore,
        List.filter_append, hself]
    rw [hlog, dropWhile_eq_filter (sorted.filter _), filter_filter_of_le hnow]

/-- So once an entry is in, the log is what its window holds. -/
theorem foldl_slide_concat {time : α → Time} {width : Time} (hwidth : 0 ≤ width)
    {entries : List α} {a : α} (sorted : Sorted time (entries ++ [a])) :
    (entries ++ [a]).foldl (slide time width) [] =
      (entries ++ [a]).filter fun b => time a - width ≤ time b := by
  obtain ⟨hentries, _, hlast⟩ := List.pairwise_append.mp sorted
  have hbefore : ∀ b ∈ entries, time b ≤ time a := fun b hb => hlast b hb a (by simp)
  have hself : [a].filter (fun b => decide (time a - width ≤ time b)) = [a] :=
    List.filter_cons_of_pos (decide_eq_true (sub_le_self _ hwidth))
  rw [List.foldl_append, List.foldl_cons, List.foldl_nil, slide,
    dropWhile_foldl_slide hwidth hentries hbefore, List.filter_append, hself]

end Window

/-- Each time is at least the gap after the one before it. -/
def Spaced (gap : Int) (times : List Int) : Prop :=
  times.IsChain fun a b => a + gap ≤ b

theorem Spaced.pairwise {gap : Int} {times : List Int} (hgap : 0 ≤ gap)
    (spaced : Spaced gap times) : times.Pairwise fun a b => a + gap ≤ b := by
  have htrans : Trans (fun a b : Int => a + gap ≤ b) (fun a b => a + gap ≤ b)
      (fun a b => a + gap ≤ b) := ⟨fun hab hbc => by omega⟩
  exact List.isChain_iff_pairwise.mp spaced

theorem Spaced.le_getLast {gap : Int} (hgap : 0 ≤ gap) {times : List Int}
    (spaced : Spaced gap times) {t last : Int} (mem : t ∈ times)
    (hlast : last ∈ times.getLast?) : t ≤ last := by
  obtain ⟨before, rfl⟩ := List.getLast?_eq_some_iff.mp hlast
  rcases List.mem_append.mp mem with h | h
  · have hpair := (List.pairwise_append.mp (spaced.pairwise hgap)).2.2 t h last (by simp)
    omega
  · have heq := List.mem_singleton.mp h
    omega

theorem length_mul_gap_le {gap lo hi : Int} (hgap : 0 ≤ gap) (hspan : lo ≤ hi)
    {times : List Int} (apart : times.Pairwise fun a b => a + gap ≤ b)
    (inside : ∀ t ∈ times, lo ≤ t ∧ t ≤ hi) : times.length * gap ≤ hi - lo + gap := by
  induction times generalizing lo with
  | nil => simp only [List.length_nil]; omega
  | cons a rest ih =>
    obtain ⟨hfirst, hrest⟩ := List.pairwise_cons.mp apart
    have ha := inside a List.mem_cons_self
    have hlen : ((a :: rest).length : Int) * gap = rest.length * gap + gap := by
      rw [List.length_cons]
      push_cast
      rw [Int.add_mul, Int.one_mul]
    cases rest with
    | nil => simp only [List.length_cons, List.length_nil] at hlen ⊢; omega
    | cons b more =>
      have hb := inside b (by simp)
      have hab := hfirst b List.mem_cons_self
      have hmore : ((b :: more).length : Int) * gap ≤ hi - (a + gap) + gap :=
        ih (by omega) hrest fun t ht =>
          ⟨hfirst t ht, (inside t (List.mem_cons_of_mem a ht)).2⟩
      omega

/-- A closed interval of a given length holds at most `len / gap + 1` spaced times. -/
theorem Spaced.count_le {gap : Int} (hgap : 0 < gap) {times : List Int}
    (spaced : Spaced gap times) (lo : Int) {len : Int} (hlen : 0 ≤ len) :
    ((times.countP fun t => lo ≤ t ∧ t ≤ lo + len : Nat) : Int) ≤ len / gap + 1 := by
  have hwithin := length_mul_gap_le (Int.le_of_lt hgap) (show lo ≤ lo + len by omega)
    ((spaced.pairwise (Int.le_of_lt hgap)).filter fun t => decide (lo ≤ t ∧ t ≤ lo + len))
    (fun t ht => by simpa using (List.mem_filter.mp ht).2)
  rw [← List.countP_eq_length_filter] at hwithin
  have hpred : ((times.countP fun t => decide (lo ≤ t ∧ t ≤ lo + len) : Nat) : Int) - 1 ≤
      len / gap := by
    apply (Int.le_ediv_iff_mul_le hgap).mpr
    rw [Int.sub_mul, Int.one_mul]
    omega
  omega

/-- With the latest time first, what stands behind is not later. -/
theorem le_of_getElem {Time : Type u} [LinearOrder Time] {log : List Time}
    (newest : log.Pairwise fun a b => b ≤ a) {i j : Nat} {late early : Time}
    (hlate : log[i]? = some late) (hearly : log[i + j]? = some early) : early ≤ late := by
  rcases Nat.eq_zero_or_pos j with rfl | hj
  · rw [Nat.add_zero, hlate, Option.some.injEq] at hearly
    exact le_of_eq hearly.symm
  · obtain ⟨hi, rfl⟩ := List.getElem?_eq_some_iff.mp hlate
    obtain ⟨hij, rfl⟩ := List.getElem?_eq_some_iff.mp hearly
    exact List.pairwise_iff_getElem.mp newest i (i + j) hi hij (by omega)

section Rolling
variable {Time : Type u} [AddCommMonoid Time] [LinearOrder Time]

/-- In a log with the latest time first, each time is at least `width` after the
`k`-th one before it. -/
def Sparse (k : Nat) (width : Time) (log : List Time) : Prop :=
  ∀ i late early, log[i]? = some late → log[i + k]? = some early → early + width ≤ late

/-- The times in a half-open window. -/
def windowCount (log : List Time) (lo hi : Time) : Nat :=
  log.countP fun t => lo ≤ t ∧ t < hi

theorem sparse_nil (k : Nat) (width : Time) : Sparse k width [] := by
  intro i late early hlate
  simp at hlate

theorem sparse_cons {k : Nat} {width t : Time} {log : List Time} :
    Sparse (k + 1) width (t :: log) ↔
      Sparse (k + 1) width log ∧ ∀ early, log[k]? = some early → early + width ≤ t := by
  constructor
  · intro sparse
    constructor
    · intro i late early hlate hearly
      exact sparse (i + 1) late early hlate (by rw [Nat.add_right_comm]; exact hearly)
    · intro early hearly
      exact sparse 0 t early rfl (by rw [Nat.zero_add]; exact hearly)
  · rintro ⟨hrest, hfirst⟩ i late early hlate hearly
    cases i with
    | zero =>
      rw [List.getElem?_cons_zero, Option.some.injEq] at hlate
      rw [Nat.zero_add, List.getElem?_cons_succ] at hearly
      exact hlate ▸ hfirst early hearly
    | succ i =>
      rw [Nat.add_right_comm] at hearly
      exact hrest i late early hlate hearly

theorem Sparse.le_of_mul [IsOrderedCancelAddMonoid Time] {k : Nat} {width : Time}
    {log : List Time} (sparse : Sparse k width log) {r j : Nat} {late early : Time}
    (hlate : log[r]? = some late) (hearly : log[r + k * j]? = some early) :
    early + j • width ≤ late := by
  induction j generalizing early with
  | zero =>
    rw [Nat.mul_zero, Nat.add_zero, hlate, Option.some.injEq] at hearly
    rw [hearly, zero_nsmul, add_zero]
  | succ j ih =>
    rw [Nat.mul_succ, ← Nat.add_assoc] at hearly
    have hlt : r + k * j < log.length := by
      have := (List.getElem?_eq_some_iff.mp hearly).1
      omega
    have hmid := sparse (r + k * j) _ early (List.getElem?_eq_getElem hlt) hearly
    rw [succ_nsmul', ← add_assoc]
    exact le_trans (add_le_add_left hmid (j • width)) (ih (List.getElem?_eq_getElem hlt))

theorem window_count_le [IsOrderedCancelAddMonoid Time] {k : Nat} {width : Time}
    {log : List Time} (newest : log.Pairwise fun a b => b ≤ a)
    (sparse : Sparse (k + 1) width log) (s : Time) :
    windowCount log s (s + width) ≤ k + 1 := by
  induction log with
  | nil => exact Nat.zero_le _
  | cons t rest ih =>
    obtain ⟨hfirst, hrest⟩ := List.pairwise_cons.mp newest
    obtain ⟨hsparse, hgap⟩ := sparse_cons.mp sparse
    by_cases hin : s ≤ t ∧ t < s + width
    · have hfar : windowCount (rest.drop k) s (s + width) = 0 := by
        rw [windowCount, List.countP_eq_zero]
        intro early hearly hwin
        simp only [decide_eq_true_eq] at hwin
        obtain ⟨i, hi⟩ := List.mem_iff_getElem?.mp hearly
        rw [List.getElem?_drop] at hi
        obtain ⟨hlt, _⟩ := List.getElem?_eq_some_iff.mp hi
        have hk : rest[k]? = some rest[k] := List.getElem?_eq_getElem (by omega)
        have hlow : rest[k] + width < s + width := lt_of_le_of_lt (hgap _ hk) hin.2
        have hle := le_of_getElem hrest hk hi
        exact absurd hwin.1 (not_le_of_gt (lt_of_le_of_lt hle (lt_of_add_lt_add_right hlow)))
      have hnear : windowCount (rest.take k) s (s + width) ≤ k :=
        le_trans List.countP_le_length (List.length_take_le k rest)
      have hsplit : windowCount rest s (s + width) =
          windowCount (rest.take k) s (s + width) + windowCount (rest.drop k) s (s + width) := by
        rw [windowCount, windowCount, windowCount, ← List.countP_append, List.take_append_drop]
      rw [windowCount, List.countP_cons_of_pos (by simpa using hin)]
      rw [windowCount] at hsplit
      omega
    · rw [windowCount, List.countP_cons_of_neg (by simpa using hin)]
      exact ih hrest hsparse

/-- No window of the width holds more than `k + 1` times exactly when the log is
sparse. -/
theorem window_count_le_iff [IsOrderedCancelAddMonoid Time] {k : Nat} {width : Time}
    {log : List Time} (newest : log.Pairwise fun a b => b ≤ a) :
    (∀ s, windowCount log s (s + width) ≤ k + 1) ↔ Sparse (k + 1) width log := by
  refine ⟨fun hcount => ?_, fun sparse => window_count_le newest sparse⟩
  intro i late early hlate hearly
  by_contra hclose
  obtain ⟨hlast, _⟩ := List.getElem?_eq_some_iff.mp hearly
  have hall : ∀ t ∈ (log.drop i).take (k + 2), early ≤ t ∧ t < early + width := by
    intro t mem
    obtain ⟨j, hj⟩ := List.mem_iff_getElem?.mp mem
    obtain ⟨hjlt, _⟩ := List.getElem?_eq_some_iff.mp hj
    simp only [List.length_take, List.length_drop] at hjlt
    rw [List.getElem?_take_of_lt (by omega), List.getElem?_drop] at hj
    have hrest : log[i + j + (k + 1 - j)]? = some early := by
      rw [show i + j + (k + 1 - j) = i + (k + 1) by omega]
      exact hearly
    exact ⟨le_of_getElem newest hj hrest,
      lt_of_le_of_lt (le_of_getElem newest hlate hj) (not_le.mp hclose)⟩
  have hlen : ((log.drop i).take (k + 2)).length = k + 2 := by
    rw [List.length_take, List.length_drop]
    omega
  have hfull : windowCount ((log.drop i).take (k + 2)) early (early + width) = k + 2 :=
    (List.countP_eq_length.mpr fun t mem => decide_eq_true (hall t mem)).trans hlen
  have hsub : ((log.drop i).take (k + 2)).Sublist log :=
    (List.take_sublist _ _).trans (List.drop_sublist i log)
  have hmore : windowCount ((log.drop i).take (k + 2)) early (early + width) ≤
      windowCount log early (early + width) := hsub.countP_le
  have := hcount early
  omega

end Rolling

end Watchtower.TimedLog
