import Mathlib.Algebra.Order.Field.Rat
import Watchtower.Foundation.LinearRefill
import Watchtower.Foundation.TimedGate

/-!
# Rate limits for the sinks

The token bucket and the dedup cache, with token arithmetic in the rationals.
Each is tied to what it remembers: the bucket to the times of its grants, the
cache to the keys it let pass.
-/

namespace Watchtower.RateLimit

open LinearRefill TimedGate

/-- Nanoseconds of the monotonic clock. -/
abbrev Instant := Nat

/-- `std::time::Duration`, in nanoseconds. -/
abbrev Duration := Nat

def Duration.fromSecs (secs : Nat) : Duration := secs * 1000000000

def Duration.asSecs (d : Duration) : ℚ := d / 1000000000

def Instant.saturatingDurationSince (now earlier : Instant) : Duration := now - earlier

/-- At most `capacity` events for each `refillInterval`, with linear refill. -/
structure TokenBucket where
  capacity : Nat
  refillInterval : Duration
  tokens : ℚ
  lastRefill : Instant

namespace TokenBucket

def new (capacity : Nat) (refillInterval : Duration) (now : Instant) : TokenBucket :=
  ⟨capacity, refillInterval, capacity, now⟩

/-- The first half of `try_take_at`. -/
def refill (bucket : TokenBucket) (now : Instant) : TokenBucket :=
  let elapsed := Instant.saturatingDurationSince now bucket.lastRefill
  let intervalSecs := Duration.asSecs bucket.refillInterval
  if 0 < intervalSecs then
    let added := Duration.asSecs elapsed / intervalSecs * bucket.capacity
    if 0 < added then
      { bucket with
        tokens := min (bucket.tokens + added) bucket.capacity
        lastRefill := now }
    else bucket
  else bucket

def tryTakeAt (bucket : TokenBucket) (now : Instant) : TokenBucket × Bool :=
  let bucket := bucket.refill now
  if 1 ≤ bucket.tokens then ({ bucket with tokens := bucket.tokens - 1 }, true)
  else (bucket, false)

/-- Tokens for each nanosecond. -/
def rate (bucket : TokenBucket) : ℚ := bucket.capacity / bucket.refillInterval

/-- The level that the grants, latest first, leave at a time. -/
def levelAt (bucket : TokenBucket) (grants : List Instant) (now : Instant) : ℚ :=
  level (bucket.capacity : ℚ) bucket.rate (grants.map Nat.cast) now

/-- The tokens and the time of the last refill are all that is left of the grants. -/
structure Follows (bucket : TokenBucket) (grants : List Instant) : Prop where
  capacity_pos : 0 < bucket.capacity
  interval_pos : 0 < bucket.refillInterval
  tokens_le : bucket.tokens ≤ bucket.capacity
  tokens_eq : ∀ now, bucket.lastRefill ≤ now →
    min (bucket.capacity : ℚ) (bucket.tokens + bucket.rate * (now - bucket.lastRefill)) =
      bucket.levelAt grants now

theorem follows_new {capacity : Nat} {interval : Duration} (hcapacity : 0 < capacity)
    (hinterval : 0 < interval) (start : Instant) :
    (new capacity interval start).Follows [] := by
  refine ⟨hcapacity, hinterval, le_rfl, fun now hnow => ?_⟩
  have hrate : 0 ≤ (new capacity interval start).rate :=
    div_nonneg (Nat.cast_nonneg _) (Nat.cast_nonneg _)
  have hspan : (0 : ℚ) ≤ now - start := sub_nonneg.mpr (Nat.cast_le.mpr hnow)
  exact min_eq_left (le_add_of_nonneg_right (mul_nonneg hrate hspan))

section Refill
variable {bucket : TokenBucket} {grants : List Instant} {now : Instant}

/-- What the fraction of the interval adds is the rate times the time that passed. -/
theorem added_eq (hpast : bucket.lastRefill ≤ now) :
    Duration.asSecs (Instant.saturatingDurationSince now bucket.lastRefill) /
        Duration.asSecs bucket.refillInterval * bucket.capacity =
      bucket.rate * (now - bucket.lastRefill) := by
  have hsecs : (1000000000 : ℚ) ≠ 0 := by norm_num
  rw [Duration.asSecs, Duration.asSecs, Instant.saturatingDurationSince,
    div_div_div_cancel_right₀ hsecs, Nat.cast_sub hpast, rate]
  ring

/-- The refill sets the tokens to the level of the moment. -/
theorem Follows.refill_eq (follows : bucket.Follows grants)
    (hpast : bucket.lastRefill ≤ now) :
    bucket.refill now =
      { bucket with tokens := bucket.levelAt grants now, lastRefill := now } := by
  have hinterval : 0 < Duration.asSecs bucket.refillInterval :=
    div_pos (Nat.cast_pos.mpr follows.interval_pos) (by norm_num)
  have hrate : 0 < bucket.rate :=
    div_pos (Nat.cast_pos.mpr follows.capacity_pos) (Nat.cast_pos.mpr follows.interval_pos)
  rw [refill, if_pos hinterval, added_eq hpast, ← follows.tokens_eq now hpast]
  rcases Nat.eq_or_lt_of_le hpast with heq | hlt
  · have hnone : bucket.rate * ((now : ℚ) - bucket.lastRefill) = 0 := by
      rw [heq, sub_self, mul_zero]
    rw [hnone, if_neg (lt_irrefl _), add_zero, min_eq_right follows.tokens_le, ← heq]
  · have hsome : 0 < bucket.rate * ((now : ℚ) - bucket.lastRefill) :=
      mul_pos hrate (sub_pos.mpr (Nat.cast_lt.mpr hlt))
    rw [if_pos hsome, min_comm]

/-- A take is granted when the level reaches one. -/
theorem Follows.tryTakeAt_cases (follows : bucket.Follows grants)
    (hpast : bucket.lastRefill ≤ now) :
    (1 ≤ bucket.levelAt grants now ∧ bucket.tryTakeAt now =
      ({ bucket with tokens := bucket.levelAt grants now - 1, lastRefill := now }, true)) ∨
    (¬ 1 ≤ bucket.levelAt grants now ∧ bucket.tryTakeAt now =
      ({ bucket with tokens := bucket.levelAt grants now, lastRefill := now }, false)) := by
  rw [TokenBucket.tryTakeAt, follows.refill_eq hpast]
  by_cases hfull : 1 ≤ bucket.levelAt grants now
  · exact Or.inl ⟨hfull, if_pos hfull⟩
  · exact Or.inr ⟨hfull, if_neg hfull⟩

theorem Follows.granted (follows : bucket.Follows grants) :
    Follows { bucket with tokens := bucket.levelAt grants now - 1, lastRefill := now }
      (now :: grants) := by
  refine ⟨follows.capacity_pos, follows.interval_pos, ?_, fun later _ => rfl⟩
  exact le_trans (sub_le_self _ zero_le_one) (level_le _ _ _ _)

/-- A take in vain changes no later level. -/
theorem Follows.denied (follows : bucket.Follows grants) (hpast : bucket.lastRefill ≤ now) :
    Follows { bucket with tokens := bucket.levelAt grants now, lastRefill := now } grants := by
  have hrate : 0 ≤ bucket.rate := div_nonneg (Nat.cast_nonneg _) (Nat.cast_nonneg _)
  refine ⟨follows.capacity_pos, follows.interval_pos, level_le _ _ _ _,
    fun later hlater => ?_⟩
  have hlevel := follows.tokens_eq later (le_trans hpast hlater)
  rw [← refill_refill _ _ hrate _ (Nat.cast_le.mpr hlater), follows.tokens_eq now hpast]
    at hlevel
  exact hlevel

end Refill

end TokenBucket

/-- Lets a key pass at most once per cooldown. -/
structure DedupCache where
  cooldown : Duration
  seen : String → Option Instant

namespace DedupCache

def new (cooldown : Duration) : DedupCache := ⟨cooldown, fun _ => none⟩

/-- Insert the key, then drop every entry past the cooldown. -/
def record (cache : DedupCache) (key : String) (now : Instant) : DedupCache :=
  { cache with
    seen := fun other => (if other = key then some now else cache.seen other).filter
      fun t => Instant.saturatingDurationSince now t < cache.cooldown }

def shouldEmitAt (cache : DedupCache) (key : String) (now : Instant) : DedupCache × Bool :=
  match cache.seen key with
  | some last =>
    if Instant.saturatingDurationSince now last < cache.cooldown then (cache, false)
    else (cache.record key now, true)
  | none => (cache.record key now, true)

theorem recent_iff {cooldown : Duration} (hcooldown : 0 < cooldown) (now last : Instant) :
    Instant.saturatingDurationSince now last < cooldown ↔ now < last + cooldown := by
  rw [Instant.saturatingDurationSince]
  unfold Instant Duration at *
  omega

/-- A key is held back by a recent entry, else it is recorded. -/
theorem shouldEmitAt_split (cache : DedupCache) (key : String) (now : Instant) :
    ((∃ last ∈ cache.seen key, Instant.saturatingDurationSince now last < cache.cooldown) ∧
      cache.shouldEmitAt key now = (cache, false)) ∨
    ((¬ ∃ last ∈ cache.seen key, Instant.saturatingDurationSince now last < cache.cooldown) ∧
      cache.shouldEmitAt key now = (cache.record key now, true)) := by
  rw [shouldEmitAt]
  cases hseen : cache.seen key with
  | none => simp
  | some last =>
    by_cases h : Instant.saturatingDurationSince now last < cache.cooldown
    · exact Or.inl ⟨⟨last, rfl, h⟩, if_pos h⟩
    · refine Or.inr ⟨?_, if_neg h⟩
      rintro ⟨time, ⟨⟩, hlt⟩
      exact h hlt

theorem shouldEmitAt_cases (cache : DedupCache) (key : String) (now : Instant)
    (hcooldown : 0 < cache.cooldown) :
    ((∃ last ∈ cache.seen key, now < last + cache.cooldown) ∧
      cache.shouldEmitAt key now = (cache, false)) ∨
    ((¬ ∃ last ∈ cache.seen key, now < last + cache.cooldown) ∧
      cache.shouldEmitAt key now = (cache.record key now, true)) := by
  have hsplit := cache.shouldEmitAt_split key now
  simp only [recent_iff hcooldown] at hsplit
  exact hsplit

/-- The cache answers as the gate over all that passed does, and keeps doing so. -/
theorem shouldEmitAt_represents {cache : DedupCache} {passed : List (String × Instant)}
    (hcooldown : 0 < cache.cooldown)
    (represents : Represents cache.cooldown passed cache.seen) (key : String) {now : Instant}
    (past : ∀ visit ∈ passed, visit.2 ≤ now) :
    (Blocked cache.cooldown passed key now ∧
      cache.shouldEmitAt key now = (cache, false)) ∨
    (¬ Blocked cache.cooldown passed key now ∧
      cache.shouldEmitAt key now = (cache.record key now, true) ∧
      Represents cache.cooldown (passed ++ [(key, now)]) (cache.record key now).seen) := by
  have hblocked := represents.blocked now past key
  rcases shouldEmitAt_cases cache key now hcooldown with ⟨hrecent, h⟩ | ⟨hfree, h⟩
  · exact Or.inl ⟨hblocked.mp hrecent, h⟩
  · refine Or.inr ⟨fun hb => hfree (hblocked.mpr hb), h, ?_⟩
    have hinsert := represents.insert key (fun h => Nat.add_le_add_right h _)
      (Nat.lt_add_of_pos_right hcooldown) past
    have hseen : (cache.record key now).seen = fun other =>
        (if other = key then some now else cache.seen other).filter
          fun time => now < time + cache.cooldown := by
      funext other
      simp only [record, recent_iff hcooldown]
    rw [hseen]
    exact hinsert

end DedupCache

end Watchtower.RateLimit
