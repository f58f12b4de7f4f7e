import Watchtower.EmailRuns

/-!
# The daily cap

A bucket of four tokens with a day to refill gives one token back every six hours,
also inside the day of a full burst. How many mails a rolling day holds is decided
by the calls that come between six and twenty-four hours after the fourth last.
-/

namespace Watchtower.Email

open Classify LinearRefill Machine RateLimit TimedLog

/-- The time in which the daily bucket regains one token. -/
def tokenTime : Duration := Duration.fromSecs (6 * 3600)

/-- When the fourth last mail process was spawned. -/
def fourthLast (entries : List (Delivery × Dispatched)) : Option Instant :=
  (invocationTimes entries).reverse[3]?

theorem mem_invocationTimes {entries : List (Delivery × Dispatched)} {time : Instant}
    (mem : time ∈ invocationTimes entries) : ∃ entry ∈ entries, time = entry.1.takeNow := by
  obtain ⟨entry, hentry, hsome⟩ := List.mem_filterMap.mp mem
  obtain ⟨_, _, rfl⟩ := Option.map_eq_some_iff.mp hsome
  exact ⟨entry, hentry, rfl⟩

section Level
variable {start : Instant} {entries : List (Delivery × Dispatched)} {bucket : TokenBucket}

theorem sparse_cast {k : Nat} {width : Nat} {log : List Nat} (sparse : Sparse k width log) :
    Sparse k (width : ℚ) (log.map Nat.cast) := by
  intro i late early hlate hearly
  rw [List.getElem?_map, Option.map_eq_some_iff] at hlate hearly
  obtain ⟨late, hlate, rfl⟩ := hlate
  obtain ⟨early, hearly, rfl⟩ := hearly
  exact_mod_cast sparse i late early hlate hearly

/-- After a history within the cap, there is a token unless the fourth last mail is
younger than one token. -/
theorem BucketTracks.one_le_levelAt_iff (tracks : BucketTracks start entries bucket)
    (sparse : Sparse dailyCap day (invocationTimes entries).reverse) {now : Instant}
    (past : ∀ entry ∈ entries, entry.1.takeNow ≤ now) :
    1 ≤ bucket.levelAt (invocationTimes entries).reverse now ↔
      ∀ g, fourthLast entries = some g → g + tokenTime ≤ now := by
  have hday : (0 : ℚ) < (day : ℚ) := by exact_mod_cast (by decide : 0 < day)
  have hpast : ∀ g ∈ (invocationTimes entries).reverse.map (Nat.cast : Nat → ℚ),
      g ≤ (now : ℚ) := by
    intro g mem
    obtain ⟨time, htime, rfl⟩ := List.mem_map.mp mem
    obtain ⟨entry, hentry, rfl⟩ := mem_invocationTimes (List.mem_reverse.mp htime)
    exact_mod_cast past entry hentry
  have hlevel := one_le_level_iff (k := 3) hday (sparse_cast sparse) hpast
  rw [TokenBucket.levelAt, TokenBucket.rate, tracks.capacity, tracks.interval]
  refine hlevel.trans ?_
  have htoken : (day : ℚ) = 4 * (tokenTime : ℚ) := by
    exact_mod_cast (by decide : day = 4 * tokenTime)
  have hroom : ∀ g : Instant, (day : ℚ) ≤ (3 + 1 : Nat) * ((now : ℚ) - g) ↔
      g + tokenTime ≤ now := by
    intro g
    rw [htoken, ← Nat.cast_le (α := ℚ)]
    push_cast
    constructor <;> intro h <;> linarith
  constructor
  · intro h g hg
    exact (hroom g).mp (h g (by rw [List.getElem?_map, ← fourthLast, hg]; rfl))
  · intro h g hg
    rw [List.getElem?_map, Option.map_eq_some_iff] at hg
    obtain ⟨time, htime, rfl⟩ := hg
    exact (hroom time).mpr (h time htime)

end Level

section Run
variable {toAddr fromAddr bin : String} {start : Instant}

theorem invocationTimes_sorted (sink : EmailSink) (calls : List Delivery)
    (chron : Chronological start calls) :
    (invocationTimes (trace EmailSink.dispatch sink calls)).reverse.Pairwise
      fun late early => early ≤ late := by
  rw [List.pairwise_reverse]
  induction calls using List.reverseRecOn with
  | nil => exact List.Pairwise.nil
  | append_singleton past call ih =>
    rw [trace_concat, invocationTimes_concat]
    split
    · refine List.pairwise_append.mpr ⟨ih chron.past, List.pairwise_singleton _ _, ?_⟩
      intro early hearly late hlate
      obtain rfl := List.mem_singleton.mp hlate
      obtain ⟨entry, hentry, rfl⟩ := mem_invocationTimes hearly
      exact le_trans (trace_takeNow_le sink chron entry hentry) call.ordered
    · rw [List.append_nil]
      exact ih chron.past

/-- An admitted call does not find the fourth last mail older than one token and still
less than a day old. -/
def ClearOfBurst (sink : EmailSink) (past : List Delivery) (call : Delivery) : Prop :=
  (after EmailSink.dispatch sink past).admits call = true →
    ∀ g, fourthLast (trace EmailSink.dispatch sink past) = some g →
      call.takeNow < g + tokenTime ∨ g + day ≤ call.takeNow

theorem sparse_concat_iff {past : List Delivery} {call : Delivery}
    (chron : Chronological start (past ++ [call])) :
    Sparse dailyCap day (invocationTimes (trace EmailSink.dispatch
        (.new toAddr fromAddr bin start) (past ++ [call]))).reverse ↔
      Sparse dailyCap day (invocationTimes (trace EmailSink.dispatch
        (.new toAddr fromAddr bin start) past)).reverse ∧
      ClearOfBurst (.new toAddr fromAddr bin start) past call := by
  obtain ⟨_, hbucket⟩ := tracks_after toAddr fromAddr bin past chron.past
  have hpast := trace_takeNow_le (.new toAddr fromAddr bin start) chron
  have hstart := chron.after_start call (by simp)
  have htoken := hbucket.hasToken_iff hstart hpast
  have hspawn := invocation_isSome_iff
    (after EmailSink.dispatch (.new toAddr fromAddr bin start) past) call
  rw [trace_concat, invocationTimes_concat]
  by_cases hsome : ((after EmailSink.dispatch (.new toAddr fromAddr bin start) past).dispatch
      call).2.invocation.isSome = true
  · obtain ⟨hadmits, hhas⟩ := hspawn.mp hsome
    rw [if_pos hsome, List.reverse_append, List.reverse_singleton, List.singleton_append]
    refine sparse_cons.trans ⟨?_, ?_⟩
    · rintro ⟨hsparse, hgap⟩
      exact ⟨hsparse, fun _ g hg => Or.inr (hgap g hg)⟩
    · rintro ⟨hsparse, hclear⟩
      refine ⟨hsparse, fun g hg => ?_⟩
      have hroom := (hbucket.one_le_levelAt_iff hsparse fun entry mem =>
        le_trans (hpast entry mem) call.ordered).mp (htoken.mp hhas) g hg
      rcases hclear hadmits g hg with h | h
      · exact absurd hroom (not_le.mpr h)
      · exact h
  · rw [if_neg hsome, List.append_nil]
    refine ⟨fun hsparse => ⟨hsparse, ?_⟩, fun h => h.1⟩
    intro hadmits g hg
    left
    by_contra hold
    have hlevel := (hbucket.one_le_levelAt_iff hsparse fun entry mem =>
      le_trans (hpast entry mem) call.ordered).mpr
        fun g' hg' => Option.some.inj (hg.symm.trans hg') ▸ not_lt.mp hold
    exact hsome (hspawn.mpr ⟨hadmits, htoken.mpr hlevel⟩)

theorem sparse_iff_clear (calls : List Delivery) (chron : Chronological start calls) :
    Sparse dailyCap day (invocationTimes (trace EmailSink.dispatch
        (.new toAddr fromAddr bin start) calls)).reverse ↔
      ∀ past call later, calls = past ++ call :: later →
        ClearOfBurst (.new toAddr fromAddr bin start) past call := by
  induction calls using List.reverseRecOn with
  | nil =>
    refine iff_of_true (sparse_nil _ _) ?_
    intro past call later h
    simp at h
  | append_singleton past call ih =>
    rw [sparse_concat_iff chron, forall_split_concat, ih chron.past]

end Run

/-- A rolling day never holds more than four spawned mails exactly when no admitted
call comes between six and twenty-four hours after the fourth last mail. -/
theorem daily_cap_iff (toAddr fromAddr bin : String) (start : Instant)
    (calls : List Delivery) (chron : Chronological start calls) :
    (∀ s, windowCount (invocationTimes (trace EmailSink.dispatch
        (.new toAddr fromAddr bin start) calls)) s (s + day) ≤ dailyCap) ↔
      ∀ past call later, calls = past ++ call :: later →
        ClearOfBurst (.new toAddr fromAddr bin start) past call := by
  have newest := invocationTimes_sorted (.new toAddr fromAddr bin start) calls chron
  refine Iff.trans ?_ (sparse_iff_clear calls chron)
  refine Iff.trans ?_ (window_count_le_iff (k := 3) newest)
  simp only [windowCount, List.countP_reverse]
  rfl

/-- A page of the chain errors under a key. -/
def pageFor (key : String) : Alert where
  severity := .page
  rule := "error_burst_per_chain"
  key := key
  count := 5
  windowSecs := 60
  sampleEvent := none
  firedAt := 0

/-- Deliver a page for the key at an hour, the mail process ending well. -/
def pageAt (key : String) (hour : Nat) : Delivery where
  alert := pageFor key
  dedupNow := Duration.fromSecs (hour * 3600)
  takeNow := Duration.fromSecs (hour * 3600)
  mail := .exited (some 0)
  ordered := le_rfl

theorem pageAt_chronological (pages : List (String × Nat))
    (sorted : pages.Pairwise fun first second => first.2 ≤ second.2) :
    Chronological 0 (pages.map fun page => pageAt page.1 page.2) := by
  refine ⟨fun call _ => Nat.zero_le _, List.pairwise_map.mpr (sorted.imp ?_)⟩
  intro first second h
  exact Nat.mul_le_mul_right _ (Nat.mul_le_mul_right _ h)

/-- Five chains page; the fifth an hour later, when the bucket is empty. -/
def fivePages (hour : Nat) : List Delivery :=
  [("a", 0), ("b", 0), ("c", 0), ("d", 0), ("e", hour)].map fun page => pageAt page.1 page.2

theorem daily_cap_iff_hour :
    invocationTimes (trace EmailSink.dispatch (.new "ops" "alerts" "mail" 0) (fivePages 1)) =
      [0, 0, 0, 0] ∧
    ((∀ s, windowCount (invocationTimes (trace EmailSink.dispatch
        (.new "ops" "alerts" "mail" 0) (fivePages 1))) s (s + day) ≤ dailyCap) ↔
      ∀ past call later, fivePages 1 = past ++ call :: later →
        ClearOfBurst (.new "ops" "alerts" "mail" 0) past call) :=
  ⟨by decide +kernel, daily_cap_iff "ops" "alerts" "mail" 0 (fivePages 1)
    (pageAt_chronological _ (by decide))⟩

/-- Six hours after a burst of four the fifth mail goes out. -/
theorem daily_cap_exceeded :
    ¬ ∀ (toAddr fromAddr bin : String) (start : Instant) (calls : List Delivery),
      Chronological start calls →
      ∀ s, windowCount (invocationTimes (trace EmailSink.dispatch
        (.new toAddr fromAddr bin start) calls)) s (s + day) ≤ dailyCap := by
  intro cap
  have hfive := cap "ops" "alerts" "mail" 0 (fivePages 6) (pageAt_chronological _ (by decide)) 0
  exact absurd hfive (by decide +kernel)

end Watchtower.Email
