import Watchtower.Email
import Watchtower.Foundation.Machine

/-!
# Runs of the email sink

The two gates of a sink are functions of its history: the dedup cache of the calls
that passed it, the daily bucket of the times at which the mail process was
spawned. Instants do not go back from call to call.
-/

namespace Watchtower.Email

open Classify Machine RateLimit TimedGate

/-- The instants of a run of calls on a sink that was made at `start`. -/
structure Chronological (start : Instant) (calls : List Delivery) : Prop where
  after_start : ∀ call ∈ calls, start ≤ call.dedupNow
  in_order : calls.Pairwise fun first second => first.takeNow ≤ second.dedupNow

theorem Chronological.past {start : Instant} {past later : List Delivery}
    (chron : Chronological start (past ++ later)) : Chronological start past :=
  ⟨fun call mem => chron.after_start call (List.mem_append_left _ mem),
    (List.pairwise_append.mp chron.in_order).1⟩

theorem Chronological.before {start : Instant} {past later : List Delivery}
    (chron : Chronological start (past ++ later)) {first second : Delivery}
    (hfirst : first ∈ past) (hsecond : second ∈ later) : first.takeNow ≤ second.dedupNow :=
  (List.pairwise_append.mp chron.in_order).2.2 first hfirst second hsecond

/-- The keys that passed the dedup and when. -/
def passes (entries : List (Delivery × Dispatched)) : List (String × Instant) :=
  entries.filterMap fun entry =>
    if PassedGate entry then some (dedupKey entry.1.alert, entry.1.dedupNow) else none

/-- When the mail process was spawned, in the order of the run. -/
def invocationTimes (entries : List (Delivery × Dispatched)) : List Instant :=
  entries.filterMap fun entry => entry.2.invocation.map fun _ => entry.1.takeNow

theorem passes_concat (entries : List (Delivery × Dispatched))
    (entry : Delivery × Dispatched) : passes (entries ++ [entry]) = passes entries ++
      if PassedGate entry then [(dedupKey entry.1.alert, entry.1.dedupNow)] else [] := by
  rw [passes, List.filterMap_append]
  by_cases h : PassedGate entry
  · simp [passes, h]
  · simp [passes, h]

theorem invocationTimes_concat (entries : List (Delivery × Dispatched))
    (entry : Delivery × Dispatched) : invocationTimes (entries ++ [entry]) =
      invocationTimes entries ++
        if entry.2.invocation.isSome then [entry.1.takeNow] else [] := by
  rw [invocationTimes, List.filterMap_append]
  cases h : entry.2.invocation with
  | none => simp [invocationTimes, h]
  | some spawned => simp [invocationTimes, h]

/-- A key is blocked by a call that passed under the same key. -/
theorem blocked_passes_iff {entries : List (Delivery × Dispatched)} {window : Duration}
    {key : String} {now : Instant} :
    Blocked window (passes entries) key now ↔ ∃ entry ∈ entries, PassedGate entry ∧
      dedupKey entry.1.alert = key ∧ now < entry.1.dedupNow + window := by
  constructor
  · rintro ⟨time, mem, hlt⟩
    obtain ⟨entry, hentry, hsome⟩ := List.mem_filterMap.mp mem
    rw [Option.ite_none_right_eq_some] at hsome
    obtain ⟨hpassed, hpair⟩ := hsome
    obtain ⟨hkey, htime⟩ := Prod.mk.inj (Option.some.inj hpair)
    exact ⟨entry, hentry, hpassed, hkey, htime ▸ hlt⟩
  · rintro ⟨entry, hentry, hpassed, hkey, hlt⟩
    refine ⟨entry.1.dedupNow, List.mem_filterMap.mpr ⟨entry, hentry, ?_⟩, hlt⟩
    rw [if_pos hpassed, hkey]

theorem passes_le {entries : List (Delivery × Dispatched)} {now : Instant}
    (past : ∀ entry ∈ entries, entry.1.takeNow ≤ now) :
    ∀ visit ∈ passes entries, visit.2 ≤ now := by
  intro visit mem
  obtain ⟨entry, hentry, hsome⟩ := List.mem_filterMap.mp mem
  rw [Option.ite_none_right_eq_some] at hsome
  obtain rfl := Option.some.inj hsome.2
  exact le_trans entry.1.ordered (past entry hentry)

/-- The cache remembers the calls that passed. -/
structure GateTracks (entries : List (Delivery × Dispatched)) (cache : DedupCache) :
    Prop where
  cooldown : cache.cooldown = dedupWindow
  represents : Represents dedupWindow (passes entries) cache.seen
  apart : Apart dedupWindow (passes entries)

/-- The bucket remembers the spawned processes. -/
structure BucketTracks (start : Instant) (entries : List (Delivery × Dispatched))
    (bucket : TokenBucket) : Prop where
  capacity : bucket.capacity = dailyCap
  interval : bucket.refillInterval = day
  follows : bucket.Follows (invocationTimes entries).reverse
  refilled : ∀ now, start ≤ now → (∀ entry ∈ entries, entry.1.takeNow ≤ now) →
    bucket.lastRefill ≤ now

section Step
variable {sink : EmailSink} {entries : List (Delivery × Dispatched)} {call : Delivery}

/-- The cache either turns the call down or records it. -/
theorem GateTracks.emit_cases (tracks : GateTracks entries sink.dedup)
    (past : ∀ entry ∈ entries, entry.1.takeNow ≤ call.dedupNow) :
    (Blocked dedupWindow (passes entries) (dedupKey call.alert) call.dedupNow ∧
      sink.dedup.shouldEmitAt (dedupKey call.alert) call.dedupNow = (sink.dedup, false)) ∨
    (¬ Blocked dedupWindow (passes entries) (dedupKey call.alert) call.dedupNow ∧
      sink.dedup.shouldEmitAt (dedupKey call.alert) call.dedupNow =
        (sink.dedup.record (dedupKey call.alert) call.dedupNow, true) ∧
      Represents dedupWindow (passes entries ++ [(dedupKey call.alert, call.dedupNow)])
        (sink.dedup.record (dedupKey call.alert) call.dedupNow).seen) := by
  have hcooldown : 0 < sink.dedup.cooldown := by
    rw [tracks.cooldown]
    decide
  have h := DedupCache.shouldEmitAt_represents hcooldown
    (by rw [tracks.cooldown]; exact tracks.represents) (dedupKey call.alert) (passes_le past)
  rw [tracks.cooldown] at h
  exact h

/-- The sink admits a page unless a call under its key passed less than the window ago. -/
theorem GateTracks.admits_iff (tracks : GateTracks entries sink.dedup)
    (past : ∀ entry ∈ entries, entry.1.takeNow ≤ call.dedupNow) :
    sink.admits call = true ↔ call.alert.severity = .page ∧
      ¬ Blocked dedupWindow (passes entries) (dedupKey call.alert) call.dedupNow := by
  rw [EmailSink.admits, decide_eq_true_eq]
  rcases tracks.emit_cases past with ⟨hblocked, h⟩ | ⟨hfree, h, _⟩
  · simp [h, hblocked]
  · simp [h, hfree]

theorem GateTracks.step (tracks : GateTracks entries sink.dedup)
    (past : ∀ entry ∈ entries, entry.1.takeNow ≤ call.dedupNow) :
    GateTracks (entries ++ [(call, (sink.dispatch call).2)]) (sink.dispatch call).1.dedup := by
  have hpassed := sink.passedGate_iff call
  have hadmits := tracks.admits_iff past
  rcases tracks.emit_cases past with ⟨hblocked, hemit⟩ | ⟨hfree, hemit, hrecord⟩
  · have hnot : ¬ PassedGate (call, (sink.dispatch call).2) := fun h =>
      (hadmits.mp (hpassed.mp h)).2 hblocked
    have hdedup : (sink.dispatch call).1.dedup = sink.dedup := by
      rcases sink.dispatch_cases call with ⟨_, h⟩ | ⟨_, _, h⟩ | ⟨_, _, h⟩ | ⟨_, _, h⟩
      · rw [h]
      · rw [h, hemit]
      · rw [h, hemit]
      · rw [h, hemit]
    rw [hdedup]
    refine ⟨tracks.cooldown, ?_, ?_⟩
    · rw [passes_concat, if_neg hnot, List.append_nil]
      exact tracks.represents
    · rw [passes_concat, if_neg hnot, List.append_nil]
      exact tracks.apart
  · by_cases hpage : call.alert.severity = .page
    · have hyes : PassedGate (call, (sink.dispatch call).2) :=
        hpassed.mpr (hadmits.mpr ⟨hpage, hfree⟩)
      have hdedup : (sink.dispatch call).1.dedup =
          sink.dedup.record (dedupKey call.alert) call.dedupNow := by
        rcases sink.dispatch_cases call with ⟨hno, _⟩ | ⟨_, hno, _⟩ | ⟨_, _, h⟩ | ⟨_, _, h⟩
        · exact absurd hpage hno
        · rw [hadmits.mpr ⟨hpage, hfree⟩] at hno
          cases hno
        · rw [h, hemit]
        · rw [h, hemit]
      rw [hdedup]
      refine ⟨tracks.cooldown, ?_, ?_⟩
      · rw [passes_concat, if_pos hyes]
        exact hrecord
      · rw [passes_concat, if_pos hyes]
        exact apart_concat tracks.apart hfree
    · have hnot : ¬ PassedGate (call, (sink.dispatch call).2) := fun h => hpage h.1
      have hsame : sink.dispatch call = (sink, ⟨none, none, .ok ()⟩) := if_pos hpage
      refine ⟨?_, ?_, ?_⟩
      · rw [hsame]
        exact tracks.cooldown
      · rw [passes_concat, if_neg hnot, List.append_nil, hsame]
        exact tracks.represents
      · rw [passes_concat, if_neg hnot, List.append_nil]
        exact tracks.apart

/-- A spawn is a call that the sink admits and the bucket has a token for. -/
theorem invocation_isSome_iff (sink : EmailSink) (call : Delivery) :
    (sink.dispatch call).2.invocation.isSome = true ↔
      sink.admits call = true ∧ sink.hasToken call = true := by
  rcases sink.dispatch_cases call with ⟨hpage, h⟩ | ⟨_, hadmits, h⟩ | ⟨hadmits, htoken, h⟩ |
    ⟨hadmits, htoken, h⟩
  · have hno : sink.admits call = false := by
      rw [← Bool.not_eq_true]
      exact fun ha => hpage (EmailSink.page_of_admits ha)
    simp [h, hno]
  · simp [h, hadmits]
  · simp [h, htoken]
  · simp [h, hadmits, htoken]

variable {start : Instant}

theorem BucketTracks.lastRefill_le (tracks : BucketTracks start entries sink.dailyBucket)
    (hstart : start ≤ call.dedupNow)
    (past : ∀ entry ∈ entries, entry.1.takeNow ≤ call.dedupNow) :
    sink.dailyBucket.lastRefill ≤ call.takeNow :=
  le_trans (tracks.refilled call.dedupNow hstart past) call.ordered

/-- The bucket has a token when the level of its grants is at least one. -/
theorem BucketTracks.hasToken_iff (tracks : BucketTracks start entries sink.dailyBucket)
    (hstart : start ≤ call.dedupNow)
    (past : ∀ entry ∈ entries, entry.1.takeNow ≤ call.dedupNow) :
    sink.hasToken call = true ↔
      1 ≤ sink.dailyBucket.levelAt (invocationTimes entries).reverse call.takeNow := by
  rw [EmailSink.hasToken]
  rcases tracks.follows.tryTakeAt_cases (tracks.lastRefill_le hstart past) with
    ⟨hfull, h⟩ | ⟨hlow, h⟩
  · simp [h, hfull]
  · simp [h, hlow]

theorem BucketTracks.keep (tracks : BucketTracks start entries sink.dailyBucket)
    {entry : Delivery × Dispatched} (quiet : entry.2.invocation = none) :
    BucketTracks start (entries ++ [entry]) sink.dailyBucket := by
  refine ⟨tracks.capacity, tracks.interval, ?_, fun now hnow hall => ?_⟩
  · rw [invocationTimes_concat, quiet]
    simpa using tracks.follows
  · exact tracks.refilled now hnow fun e he => hall e (List.mem_append_left _ he)

/-- A bucket that was asked by the last call, granting or not. -/
theorem BucketTracks.ask (tracks : BucketTracks start entries sink.dailyBucket)
    {entry : Delivery × Dispatched} {tokens : ℚ}
    (follows : TokenBucket.Follows
      { sink.dailyBucket with tokens := tokens, lastRefill := entry.1.takeNow }
      (invocationTimes (entries ++ [entry])).reverse) :
    BucketTracks start (entries ++ [entry])
      { sink.dailyBucket with tokens := tokens, lastRefill := entry.1.takeNow } :=
  ⟨tracks.capacity, tracks.interval, follows,
    fun _ _ hall => hall entry (List.mem_append_right _ (List.mem_singleton.mpr rfl))⟩

theorem BucketTracks.step (tracks : BucketTracks start entries sink.dailyBucket)
    (hstart : start ≤ call.dedupNow)
    (past : ∀ entry ∈ entries, entry.1.takeNow ≤ call.dedupNow) :
    BucketTracks start (entries ++ [(call, (sink.dispatch call).2)])
      (sink.dispatch call).1.dailyBucket := by
  have hpast := tracks.lastRefill_le hstart past
  have htoken := tracks.hasToken_iff hstart past
  rcases sink.dispatch_cases call with ⟨_, h⟩ | ⟨_, _, h⟩ | ⟨_, hno, h⟩ | ⟨_, hyes, h⟩
  · rw [h]
    exact tracks.keep rfl
  · rw [h]
    exact tracks.keep rfl
  · rcases tracks.follows.tryTakeAt_cases hpast with ⟨hfull, _⟩ | ⟨_, htake⟩
    · rw [htoken.mpr hfull] at hno
      cases hno
    · rw [h, htake]
      refine tracks.ask ?_
      rw [invocationTimes_concat]
      simpa using tracks.follows.denied hpast
  · rcases tracks.follows.tryTakeAt_cases hpast with ⟨_, htake⟩ | ⟨hlow, _⟩
    · rw [h, htake]
      refine tracks.ask ?_
      rw [invocationTimes_concat]
      simpa using tracks.follows.granted
    · exact absurd (htoken.mp hyes) hlow

end Step

section Run
variable {start : Instant}

theorem mem_of_mem_trace {sink : EmailSink} {calls : List Delivery}
    {entry : Delivery × Dispatched} (mem : entry ∈ trace EmailSink.dispatch sink calls) :
    entry.1 ∈ calls :=
  (List.of_mem_zip mem).1

theorem trace_takeNow_le (sink : EmailSink) {past : List Delivery} {call : Delivery}
    (chron : Chronological start (past ++ [call])) :
    ∀ entry ∈ trace EmailSink.dispatch sink past, entry.1.takeNow ≤ call.dedupNow :=
  fun _ mem => chron.before (mem_of_mem_trace mem) (List.mem_singleton.mpr rfl)

/-- After every run the cache and the bucket are what the history makes them. -/
theorem tracks_after (toAddr fromAddr bin : String) (calls : List Delivery)
    (chron : Chronological start calls) :
    GateTracks (trace EmailSink.dispatch (.new toAddr fromAddr bin start) calls)
      (after EmailSink.dispatch (.new toAddr fromAddr bin start) calls).dedup ∧
    BucketTracks start (trace EmailSink.dispatch (.new toAddr fromAddr bin start) calls)
      (after EmailSink.dispatch (.new toAddr fromAddr bin start) calls).dailyBucket := by
  induction calls using List.reverseRecOn with
  | nil =>
    refine ⟨⟨rfl, represents_empty dedupWindow, List.Pairwise.nil⟩, rfl, rfl, ?_, ?_⟩
    · exact TokenBucket.follows_new (by decide) (by decide) start
    · exact fun now hnow _ => hnow
  | append_singleton past call ih =>
    obtain ⟨hgate, hbucket⟩ := ih chron.past
    have hpast := trace_takeNow_le (.new toAddr fromAddr bin start) chron
    rw [trace_concat, after_concat]
    exact ⟨hgate.step hpast, hbucket.step (chron.after_start call (by simp)) hpast⟩

end Run

end Watchtower.Email
