import Watchtower.Foundation.Machine
import Watchtower.RateLimit

/-!
# Runs of a token bucket

A bucket asked at instants that do not go back. Its grants are bounded in every
interval, none is refused to who waits for one token, and a take in vain leaves
no trace in what the bucket answers later.
-/

namespace Watchtower.RateLimit

open LinearRefill Machine

/-- When the takes of a run were granted, the latest first. -/
def grantTimes (entries : List (Instant × Bool)) : List Instant :=
  ((entries.filter Prod.snd).map Prod.fst).reverse

theorem grantTimes_concat (entries : List (Instant × Bool)) (now : Instant) (granted : Bool) :
    grantTimes (entries ++ [(now, granted)]) =
      if granted then now :: grantTimes entries else grantTimes entries := by
  cases granted with
  | false => simp [grantTimes]
  | true => simp [grantTimes]

namespace TokenBucket

/-- The bucket moved on to a moment. -/
def advance (bucket : TokenBucket) (now : Instant) : TokenBucket :=
  { bucket with
    tokens := min (bucket.tokens + bucket.rate * (now - bucket.lastRefill)) bucket.capacity
    lastRefill := now }

/-- Moving on in two steps is moving on in one. -/
theorem advance_advance (bucket : TokenBucket) {mid now : Instant} (h : mid ≤ now) :
    (bucket.advance mid).advance now = bucket.advance now := by
  have hrate : 0 ≤ bucket.rate := div_nonneg (Nat.cast_nonneg _) (Nat.cast_nonneg _)
  have htwice : min ((bucket.capacity : ℚ)) (min (bucket.capacity : ℚ)
      (bucket.tokens + bucket.rate * (mid - bucket.lastRefill)) + bucket.rate * (now - mid)) =
      min (bucket.capacity : ℚ) (bucket.tokens + bucket.rate * (now - bucket.lastRefill)) :=
    refill_refill _ _ hrate bucket.tokens (Nat.cast_le.mpr h)
  simp only [advance, rate, TokenBucket.mk.injEq, true_and, and_true] at htwice ⊢
  rw [min_comm, min_comm _ (bucket.capacity : ℚ), min_comm _ (bucket.capacity : ℚ)]
  exact htwice

/-- A bucket that refills at all is moved on by every instant after its last refill. -/
theorem refill_eq_advance {bucket : TokenBucket} {now : Instant}
    (hinterval : 0 < bucket.refillInterval) (hcapacity : 0 < bucket.capacity)
    (hlater : bucket.lastRefill < now) : bucket.refill now = bucket.advance now := by
  have hsecs : 0 < Duration.asSecs bucket.refillInterval :=
    div_pos (Nat.cast_pos.mpr hinterval) (by norm_num)
  have hadded : 0 < bucket.rate * ((now : ℚ) - bucket.lastRefill) :=
    mul_pos (div_pos (Nat.cast_pos.mpr hcapacity) (Nat.cast_pos.mpr hinterval))
      (sub_pos.mpr (Nat.cast_lt.mpr hlater))
  rw [refill, if_pos hsecs, added_eq (Nat.le_of_lt hlater), if_pos hadded]
  rfl

theorem refill_of_early {bucket : TokenBucket} {now : Instant}
    (hearly : now ≤ bucket.lastRefill) : bucket.refill now = bucket := by
  have hnone : Instant.saturatingDurationSince now bucket.lastRefill = 0 :=
    Nat.sub_eq_zero_of_le hearly
  simp [refill, hnone, Duration.asSecs]

/-- A refill either leaves the bucket alone or moves it on. -/
theorem refill_cases (bucket : TokenBucket) (now : Instant) :
    bucket.refill now = bucket ∨
    (0 < bucket.refillInterval ∧ 0 < bucket.capacity ∧ bucket.lastRefill < now ∧
      bucket.refill now = bucket.advance now) := by
  rcases Nat.eq_zero_or_pos bucket.refillInterval with hzero | hinterval
  · left
    simp [refill, hzero, Duration.asSecs]
  rcases Nat.eq_zero_or_pos bucket.capacity with hzero | hcapacity
  · left
    simp [refill, hzero]
  rcases Nat.lt_or_ge bucket.lastRefill now with hlater | hearly
  · exact Or.inr ⟨hinterval, hcapacity, hlater, refill_eq_advance hinterval hcapacity hlater⟩
  · exact Or.inl (refill_of_early hearly)

theorem tryTakeAt_eq (bucket : TokenBucket) (now : Instant) :
    bucket.tryTakeAt now = if 1 ≤ (bucket.refill now).tokens
      then ({ bucket.refill now with tokens := (bucket.refill now).tokens - 1 }, true)
      else (bucket.refill now, false) := rfl

/-- The bucket never holds less than nothing or more than its capacity. -/
structure Bounded (bucket : TokenBucket) : Prop where
  nonneg : 0 ≤ bucket.tokens
  le_capacity : bucket.tokens ≤ bucket.capacity

theorem bounded_new (capacity : Nat) (interval : Duration) (start : Instant) :
    (new capacity interval start).Bounded :=
  ⟨Nat.cast_nonneg capacity, le_rfl⟩

theorem Bounded.refill {bucket : TokenBucket} (bounded : bucket.Bounded) (now : Instant) :
    (bucket.refill now).Bounded ∧ (bucket.refill now).capacity = bucket.capacity ∧
      (bucket.refill now).refillInterval = bucket.refillInterval := by
  rcases bucket.refill_cases now with h | ⟨_, _, hlater, h⟩
  · rw [h]
    exact ⟨bounded, rfl, rfl⟩
  · rw [h]
    have hrate : 0 ≤ bucket.rate := div_nonneg (Nat.cast_nonneg _) (Nat.cast_nonneg _)
    have hspan : (0 : ℚ) ≤ now - bucket.lastRefill :=
      sub_nonneg.mpr (Nat.cast_le.mpr (Nat.le_of_lt hlater))
    have hsum := add_nonneg bounded.nonneg (mul_nonneg hrate hspan)
    exact ⟨⟨le_min hsum (Nat.cast_nonneg _), min_le_right _ _⟩, rfl, rfl⟩

theorem Bounded.tryTakeAt {bucket : TokenBucket} (bounded : bucket.Bounded) (now : Instant) :
    (bucket.tryTakeAt now).1.Bounded ∧ (bucket.tryTakeAt now).1.capacity = bucket.capacity ∧
      (bucket.tryTakeAt now).1.refillInterval = bucket.refillInterval := by
  obtain ⟨hrefilled, hcapacity, hinterval⟩ := bounded.refill now
  rw [tryTakeAt_eq]
  split
  · next hone =>
    refine ⟨⟨sub_nonneg.mpr hone, ?_⟩, hcapacity, hinterval⟩
    exact le_trans (sub_le_self _ zero_le_one) hrefilled.le_capacity
  · exact ⟨hrefilled, hcapacity, hinterval⟩

theorem bounded_after (capacity : Nat) (interval : Duration) (start : Instant)
    (calls : List Instant) :
    (after tryTakeAt (new capacity interval start) calls).Bounded ∧
      (after tryTakeAt (new capacity interval start) calls).capacity = capacity ∧
      (after tryTakeAt (new capacity interval start) calls).refillInterval = interval := by
  refine after_invariant tryTakeAt (P := fun b => b.Bounded ∧ b.capacity = capacity ∧
    b.refillInterval = interval) ⟨bounded_new capacity interval start, rfl, rfl⟩ ?_ calls
  rintro bucket now ⟨hbounded, hcapacity, hinterval⟩
  obtain ⟨hnext, hcapacity', hinterval'⟩ := hbounded.tryTakeAt now
  exact ⟨hnext, hcapacity'.trans hcapacity, hinterval'.trans hinterval⟩

end TokenBucket

/-- The instants of a run that begins at `start` and does not go back. -/
def Forward (start : Instant) (calls : List Instant) : Prop :=
  (start :: calls).Pairwise fun first second => first ≤ second

instance (start : Instant) (calls : List Instant) : Decidable (Forward start calls) :=
  inferInstanceAs (Decidable (List.Pairwise _ _))

theorem Forward.past {start : Instant} {past later : List Instant}
    (forward : Forward start (past ++ later)) : Forward start past := by
  rw [Forward, ← List.cons_append] at forward
  exact (List.pairwise_append.mp forward).1

/-- The instant of the last call, or of the construction. -/
def lastCall (start : Instant) (past : List Instant) : Instant := past.getLastD start

theorem Forward.lastCall_le {start : Instant} {past later : List Instant} {now : Instant}
    (forward : Forward start (past ++ now :: later)) : lastCall start past ≤ now := by
  rw [Forward, ← List.cons_append] at forward
  refine (List.pairwise_append.mp forward).2.2 _ ?_ now List.mem_cons_self
  rcases List.eq_nil_or_concat past with rfl | ⟨before, last, rfl⟩
  · exact List.mem_cons_self
  · simp [lastCall]

section Run
variable (capacity : Nat) (interval : Duration) (start : Instant)

/-- The bucket after a run of takes. -/
abbrev bucketAfter (calls : List Instant) : TokenBucket :=
  after TokenBucket.tryTakeAt (.new capacity interval start) calls

/-- The takes of a run, each with its answer. -/
abbrev answers (calls : List Instant) : List (Instant × Bool) :=
  trace TokenBucket.tryTakeAt (.new capacity interval start) calls

/-- The last refill of a run is not later than its last call. -/
theorem lastRefill_le_lastCall (calls : List Instant) (forward : Forward start calls) :
    (bucketAfter capacity interval start calls).lastRefill ≤ lastCall start calls := by
  induction calls using List.reverseRecOn with
  | nil => exact Nat.le_refl start
  | append_singleton past now ih =>
    have hpast := Nat.le_trans (ih forward.past) (Forward.lastCall_le forward)
    have hlast : lastCall start (past ++ [now]) = now := by simp [lastCall]
    have hrefill : ((bucketAfter capacity interval start past).refill now).lastRefill ≤ now := by
      rcases (bucketAfter capacity interval start past).refill_cases now with
        h | ⟨_, _, _, h⟩
      · rw [h]
        exact hpast
      · rw [h]
        exact Nat.le_refl now
    rw [bucketAfter, after_concat, hlast, TokenBucket.tryTakeAt_eq]
    split
    · exact hrefill
    · exact hrefill

theorem lastRefill_le_now {past later : List Instant} {now : Instant}
    (forward : Forward start (past ++ now :: later)) :
    (bucketAfter capacity interval start past).lastRefill ≤ now :=
  Nat.le_trans (lastRefill_le_lastCall capacity interval start past forward.past)
    forward.lastCall_le

variable {capacity interval start}

/-- The bucket of a run is what its grants make it, and each of them was funded. -/
theorem follows_after (hcapacity : 0 < capacity) (hinterval : 0 < interval)
    (calls : List Instant) (forward : Forward start calls) :
    (bucketAfter capacity interval start calls).Follows
        (grantTimes (answers capacity interval start calls)) ∧
      Funded (capacity : ℚ) (capacity / interval)
        ((grantTimes (answers capacity interval start calls)).map Nat.cast) := by
  induction calls using List.reverseRecOn with
  | nil => exact ⟨TokenBucket.follows_new hcapacity hinterval start, trivial⟩
  | append_singleton past now ih =>
    obtain ⟨follows, funded⟩ := ih forward.past
    have hpast := lastRefill_le_now capacity interval start forward
    obtain ⟨_, hcap, hint⟩ := TokenBucket.bounded_after capacity interval start past
    rw [answers, bucketAfter, trace_concat, after_concat, grantTimes_concat]
    rcases follows.tryTakeAt_cases hpast with ⟨hfull, htake⟩ | ⟨_, htake⟩
    · rw [htake, if_pos rfl]
      refine ⟨follows.granted, ?_, funded⟩
      rw [TokenBucket.levelAt, TokenBucket.rate, hcap, hint] at hfull
      exact hfull
    · rw [htake, if_neg Bool.false_ne_true]
      exact ⟨follows.denied hpast, funded⟩

/-- A bucket without capacity grants nothing. -/
theorem grantTimes_of_capacity_zero (calls : List Instant) :
    grantTimes (answers 0 interval start calls) = [] := by
  induction calls using List.reverseRecOn with
  | nil => rfl
  | append_singleton past now ih =>
    obtain ⟨hbounded, hcap, _⟩ := TokenBucket.bounded_after 0 interval start past
    obtain ⟨hrefilled, hcap', _⟩ := hbounded.refill now
    have hempty := hrefilled.le_capacity
    rw [hcap', hcap, Nat.cast_zero] at hempty
    rw [answers, trace_concat, grantTimes_concat, ih, TokenBucket.tryTakeAt_eq,
      if_neg (not_le.mpr (lt_of_le_of_lt hempty zero_lt_one)), if_neg Bool.false_ne_true]

/-- The grants of an interval are bounded by the capacity and what the interval refills. -/
theorem grants_le (hinterval : 0 < interval) {calls : List Instant}
    (forward : Forward start calls) {lo hi : Instant} (hspan : lo ≤ hi) :
    (((grantTimes (answers capacity interval start calls)).countP
        fun t => lo ≤ t ∧ t ≤ hi : Nat) : ℚ) ≤
      capacity + capacity * (hi - lo) / interval := by
  rcases Nat.eq_zero_or_pos capacity with rfl | hcapacity
  · rw [grantTimes_of_capacity_zero]
    simp
  · obtain ⟨_, funded⟩ := follows_after hcapacity hinterval calls forward
    have hrate : (0 : ℚ) ≤ capacity / interval :=
      div_nonneg (Nat.cast_nonneg _) (Nat.cast_nonneg _)
    have hcount := Funded.count_le _ _ (Nat.cast_nonneg capacity) hrate funded
      (Nat.cast_le.mpr hspan : (lo : ℚ) ≤ hi)
    rw [List.countP_map] at hcount
    rw [mul_div_right_comm]
    simpa [Function.comp_def] using hcount

/-- Who comes the time of one token after the last call is served. -/
theorem granted_of_wait (hcapacity : 0 < capacity) (hinterval : 0 < interval)
    {past later : List Instant} {now : Instant}
    (forward : Forward start (past ++ now :: later))
    (wait : (interval : ℚ) / capacity ≤ now - lastCall start past) :
    ((bucketAfter capacity interval start past).tryTakeAt now).2 = true := by
  obtain ⟨hbounded, hcap, hint⟩ := TokenBucket.bounded_after capacity interval start past
  have hlast : ((bucketAfter capacity interval start past).lastRefill : ℚ) ≤
      lastCall start past :=
    Nat.cast_le.mpr (lastRefill_le_lastCall capacity interval start past forward.past)
  have hpos : (0 : ℚ) < interval / capacity :=
    div_pos (Nat.cast_pos.mpr hinterval) (Nat.cast_pos.mpr hcapacity)
  have hrate : (0 : ℚ) ≤ capacity / interval :=
    div_nonneg (Nat.cast_nonneg _) (Nat.cast_nonneg _)
  have hunit : (capacity : ℚ) / interval * (interval / capacity) = 1 := by
    rw [div_mul_div_cancel₀ (Nat.cast_ne_zero.mpr (Nat.pos_iff_ne_zero.mp hinterval)),
      div_self (Nat.cast_ne_zero.mpr (Nat.pos_iff_ne_zero.mp hcapacity))]
  have hspan : (interval : ℚ) / capacity ≤
      now - (bucketAfter capacity interval start past).lastRefill := by linarith
  have hlater : (bucketAfter capacity interval start past).lastRefill < now := by
    have hbefore : ((bucketAfter capacity interval start past).lastRefill : ℚ) < now := by
      linarith
    exact Nat.cast_lt.mp hbefore
  have hmoved := TokenBucket.refill_eq_advance (hinterval.trans_eq hint.symm)
    (hcapacity.trans_eq hcap.symm) hlater
  have hfull : 1 ≤ ((bucketAfter capacity interval start past).refill now).tokens := by
    rw [hmoved, TokenBucket.advance, TokenBucket.rate, hcap, hint]
    have hone := mul_le_mul_of_nonneg_left hspan hrate
    rw [hunit] at hone
    refine le_min ?_ (by exact_mod_cast hcapacity)
    exact le_add_of_nonneg_of_le hbounded.nonneg hone
  rw [TokenBucket.tryTakeAt_eq, if_pos hfull]

/-- At every point of a run the tokens stay between nothing and the capacity; no
interval holds more grants than the capacity and what it refills; and a call that comes
the time of one token after the call before it, or after the construction, is granted. -/
theorem token_bucket_fair (capacity : Nat) (interval : Duration) (hinterval : 0 < interval)
    (start : Instant) (calls : List Instant) (forward : Forward start calls) :
    (∀ past later, calls = past ++ later →
      0 ≤ (bucketAfter capacity interval start past).tokens ∧
      (bucketAfter capacity interval start past).tokens ≤ capacity) ∧
    (∀ lo hi : Instant, lo ≤ hi →
      (((grantTimes (answers capacity interval start calls)).countP
        fun t => lo ≤ t ∧ t ≤ hi : Nat) : ℚ) ≤
        capacity + capacity * (hi - lo) / interval) ∧
    (1 ≤ capacity → ∀ past (now : Instant) later, calls = past ++ now :: later →
      (interval : ℚ) / capacity ≤ now - lastCall start past →
      ((bucketAfter capacity interval start past).tryTakeAt now).2 = true) := by
  refine ⟨fun past _ _ => ?_, fun lo hi hspan => grants_le hinterval forward hspan, ?_⟩
  · obtain ⟨hbounded, hcap, _⟩ := TokenBucket.bounded_after capacity interval start past
    have hle := hbounded.le_capacity
    rw [hcap] at hle
    exact ⟨hbounded.nonneg, hle⟩
  · rintro hcapacity past now later rfl wait
    exact granted_of_wait hcapacity hinterval forward wait

/-- Two tokens in ten nanoseconds: half the interval after both are spent, one is back. -/
theorem token_bucket_fair_half :
    answers 2 10 0 [0, 0, 0, 5, 5] =
      [(0, true), (0, true), (0, false), (5, true), (5, false)] ∧
    (((grantTimes (answers 2 10 0 [0, 0, 0, 5, 5])).countP
        fun t => 0 ≤ t ∧ t ≤ 5 : Nat) : ℚ) ≤
      ((2 : Nat) : ℚ) + ((2 : Nat) : ℚ) * ((5 : Nat) - (0 : Nat)) / ((10 : Nat) : ℚ) ∧
    ((bucketAfter 2 10 0 [0, 0, 0]).tryTakeAt 5).2 = true := by
  have fair := token_bucket_fair 2 10 (by decide) 0 [0, 0, 0, 5, 5] (by decide)
  refine ⟨by decide +kernel, fair.2.1 0 5 (by decide), ?_⟩
  exact fair.2.2 (by decide) [0, 0, 0] 5 [5] rfl (by decide +kernel)

end Run

/-- A later refill makes an earlier one superfluous. -/
theorem TokenBucket.refill_twice (bucket : TokenBucket) {mid now : Instant} (h : mid ≤ now) :
    (bucket.refill mid).refill now = bucket.refill now := by
  rcases bucket.refill_cases mid with hmid | ⟨hinterval, hcapacity, hlater, hmid⟩
  · rw [hmid]
  · rw [hmid, refill_eq_advance hinterval hcapacity (Nat.lt_of_lt_of_le hlater h)]
    rcases Nat.eq_or_lt_of_le h with rfl | hlt
    · exact refill_of_early (Nat.le_refl mid)
    · have hagain : (bucket.advance mid).refill now = (bucket.advance mid).advance now :=
        refill_eq_advance hinterval hcapacity hlt
      rw [hagain, bucket.advance_advance h]

/-- Some of the calls that were denied are left out. -/
inductive Thinned : List (Instant × Bool) → List (Instant × Bool) → Prop
  | nil : Thinned [] []
  | keep (entry : Instant × Bool) {entries kept : List (Instant × Bool)}
      (h : Thinned entries kept) : Thinned (entry :: entries) (entry :: kept)
  | drop (now : Instant) {entries kept : List (Instant × Bool)}
      (h : Thinned entries kept) : Thinned ((now, false) :: entries) kept

/-- From an instant on, two buckets answer alike. -/
def Alike (now : Instant) (first second : TokenBucket) : Prop :=
  ∀ later, now ≤ later → first.refill later = second.refill later

theorem Alike.mono {now later : Instant} {first second : TokenBucket}
    (alike : Alike now first second) (h : now ≤ later) : Alike later first second :=
  fun last hlast => alike last (Nat.le_trans h hlast)

theorem Alike.tryTakeAt_eq {now : Instant} {first second : TokenBucket}
    (alike : Alike now first second) : first.tryTakeAt now = second.tryTakeAt now := by
  rw [TokenBucket.tryTakeAt_eq, TokenBucket.tryTakeAt_eq, alike now (Nat.le_refl now)]

/-- A take in vain leaves a bucket that answers like the one before it. -/
theorem Alike.denied {now : Instant} {first second : TokenBucket}
    (alike : Alike now first second) (hdenied : (first.tryTakeAt now).2 = false) :
    Alike now (first.tryTakeAt now).1 second := by
  have hstate : (first.tryTakeAt now).1 = first.refill now := by
    rw [TokenBucket.tryTakeAt_eq] at hdenied ⊢
    split at hdenied
    · cases hdenied
    · next hlow => rw [if_neg hlow]
  intro later hlater
  rw [hstate, first.refill_twice hlater]
  exact alike later hlater

/-- Two buckets that answer alike give the calls that are kept the same answers. -/
theorem trace_of_thinned {first second : TokenBucket} {start : Instant} {calls : List Instant}
    {kept : List (Instant × Bool)} (alike : Alike start first second)
    (forward : Forward start calls)
    (thinned : Thinned (trace TokenBucket.tryTakeAt first calls) kept) :
    trace TokenBucket.tryTakeAt second (kept.map Prod.fst) = kept := by
  induction calls generalizing first second start kept with
  | nil =>
    cases thinned
    rfl
  | cons now rest ih =>
    obtain ⟨hstart, hrest⟩ := List.pairwise_cons.mp forward
    have hnow := alike.mono (hstart now List.mem_cons_self)
    rw [trace_cons] at thinned
    cases h : first.tryTakeAt now with
    | mk next granted =>
      rw [h] at thinned
      cases thinned with
      | keep entry hkept =>
        rw [List.map_cons, trace_cons, ← hnow.tryTakeAt_eq, h]
        exact congrArg (List.cons (now, granted)) (ih (fun _ _ => rfl) hrest hkept)
      | drop _ hkept =>
        have hlike := hnow.denied (congrArg Prod.snd h)
        rw [h] at hlike
        exact ih hlike hrest hkept

/-- The calls that are left get the answers they got among the denied ones. -/
theorem denied_takes_invisible (capacity : Nat) (interval : Duration) (start : Instant)
    (calls : List Instant) (sorted : calls.Pairwise fun first second => first ≤ second)
    (kept : List (Instant × Bool))
    (thinned : Thinned (answers capacity interval start calls) kept) :
    answers capacity interval start (kept.map Prod.fst) = kept := by
  have forward : Forward 0 calls :=
    List.pairwise_cons.mpr ⟨fun now _ => Nat.zero_le now, sorted⟩
  exact trace_of_thinned (fun _ _ => rfl) forward thinned

/-- Of the two denied calls of the run above the first is left out. -/
theorem denied_takes_invisible_half :
    answers 2 10 0 [0, 0, 5, 5] = [(0, true), (0, true), (5, true), (5, false)] := by
  have hrun : answers 2 10 0 [0, 0, 0, 5, 5] =
      [(0, true), (0, true), (0, false), (5, true), (5, false)] := by decide +kernel
  have thinned : Thinned (answers 2 10 0 [0, 0, 0, 5, 5])
      [(0, true), (0, true), (5, true), (5, false)] := by
    rw [hrun]
    exact .keep _ (.keep _ (.drop 0 (.keep _ (.keep _ .nil))))
  exact denied_takes_invisible 2 10 0 [0, 0, 0, 5, 5] (by decide) _ thinned

end Watchtower.RateLimit
