import Watchtower.Foundation.Machine
import Watchtower.Foundation.TimedLog
import Watchtower.RateLimit

/-!
# What the dedup cache forgets

Every key that passes sweeps the entries of all the others. The cache is compared with
one that keeps every emission: it answers alike, and after a sweep it holds the last
emissions that still suppress something.
-/

namespace Watchtower.RateLimit

open Machine TimedGate TimedLog

/-- One call of `should_emit_at`. -/
def DedupCache.ask (cache : DedupCache) (call : String × Instant) : DedupCache × Bool :=
  cache.shouldEmitAt call.1 call.2

/-- The dedup that deletes nothing: the keys it let pass, with the times. -/
structure DedupHistory where
  cooldown : Duration
  emitted : List (String × Instant)

namespace DedupHistory

def new (cooldown : Duration) : DedupHistory := ⟨cooldown, []⟩

/-- A key passes unless it has an emission less than the cooldown before. -/
def shouldEmitAt (history : DedupHistory) (key : String) (now : Instant) :
    DedupHistory × Bool :=
  if ∃ emission ∈ history.emitted, emission.1 = key ∧
      Instant.saturatingDurationSince now emission.2 < history.cooldown then (history, false)
  else ({ history with emitted := history.emitted ++ [(key, now)] }, true)

def ask (history : DedupHistory) (call : String × Instant) : DedupHistory × Bool :=
  history.shouldEmitAt call.1 call.2

end DedupHistory

/-- Time that passed since an instant that is not later. -/
theorem recent_iff_of_le {last now : Instant} (h : last ≤ now) (cooldown : Duration) :
    Instant.saturatingDurationSince now last < cooldown ↔ now < last + cooldown := by
  rw [Instant.saturatingDurationSince]
  unfold Instant Duration at *
  omega

/-- The cache has forgotten nothing that suppresses a key from an instant on. -/
structure Agrees (cooldown : Duration) (cache : DedupCache) (history : DedupHistory)
    (since : Instant) : Prop where
  cache_cooldown : cache.cooldown = cooldown
  history_cooldown : history.cooldown = cooldown
  past : ∀ emission ∈ history.emitted, emission.2 ≤ since
  forgets : Forgets cooldown history.emitted since cache.seen

theorem agrees_new (cooldown : Duration) (since : Instant) :
    Agrees cooldown (.new cooldown) (.new cooldown) since :=
  ⟨rfl, rfl, fun _ mem => absurd mem List.not_mem_nil, forgets_empty cooldown since⟩

section Step
variable {cooldown : Duration} {cache : DedupCache} {history : DedupHistory}
  {since now : Instant}

theorem Agrees.later (agrees : Agrees cooldown cache history since) (h : since ≤ now) :
    Agrees cooldown cache history now :=
  ⟨agrees.cache_cooldown, agrees.history_cooldown,
    fun emission mem => Nat.le_trans (agrees.past emission mem) h, agrees.forgets.later h⟩

/-- Both hold a key back for the same reason. -/
theorem Agrees.recent (agrees : Agrees cooldown cache history now) (key : String) :
    (∃ last ∈ cache.seen key, Instant.saturatingDurationSince now last < cache.cooldown) ↔
      ∃ emission ∈ history.emitted, emission.1 = key ∧
        Instant.saturatingDurationSince now emission.2 < history.cooldown := by
  have hblocked := agrees.forgets.blocked le_rfl (fun h => Nat.add_le_add_right h _) key
  rw [agrees.cache_cooldown, agrees.history_cooldown]
  constructor
  · rintro ⟨last, hlast, hlt⟩
    have hle := agrees.past _ (agrees.forgets.sound key last hlast).1
    obtain ⟨time, mem, hrecent⟩ := hblocked.mp ⟨last, hlast, (recent_iff_of_le hle _).mp hlt⟩
    exact ⟨(key, time), mem, rfl, (recent_iff_of_le (agrees.past _ mem) _).mpr hrecent⟩
  · rintro ⟨⟨_, time⟩, mem, rfl, hlt⟩
    obtain ⟨last, hlast, hrecent⟩ :=
      hblocked.mpr ⟨time, mem, (recent_iff_of_le (agrees.past _ mem) _).mp hlt⟩
    have hle := agrees.past _ (agrees.forgets.sound _ last hlast).1
    exact ⟨last, hlast, (recent_iff_of_le hle _).mpr hrecent⟩

/-- Both hold the key back or both let it pass. -/
theorem Agrees.ask_cases (agrees : Agrees cooldown cache history now) (key : String) :
    (cache.ask (key, now) = (cache, false) ∧ history.ask (key, now) = (history, false)) ∨
    (cache.ask (key, now) = (cache.record key now, true) ∧
      history.ask (key, now) =
        ({ history with emitted := history.emitted ++ [(key, now)] }, true)) := by
  rcases cache.shouldEmitAt_split key now with ⟨hrecent, h⟩ | ⟨hfree, h⟩
  · exact Or.inl ⟨h, if_pos ((agrees.recent key).mp hrecent)⟩
  · exact Or.inr ⟨h, if_neg fun hrecent => hfree ((agrees.recent key).mpr hrecent)⟩

/-- What a sweep leaves. -/
theorem Agrees.record (agrees : Agrees cooldown cache history now) (key other : String)
    (time : Instant) : (cache.record key now).seen other = some time ↔
      Latest (history.emitted ++ [(key, now)]) other time ∧
        Instant.saturatingDurationSince now time < cooldown := by
  have hfound : ∀ t, (if other = key then some now else cache.seen other) = some t → t ≤ now := by
    intro t ht
    split at ht
    · exact Nat.le_of_eq (Option.some.inj ht).symm
    · exact agrees.past _ (agrees.forgets.sound other t ht).1
  have hinsert := agrees.forgets.insert le_rfl agrees.past key other time
  rw [Option.filter_eq_some_iff, decide_eq_true_eq] at hinsert
  rw [DedupCache.record, Option.filter_eq_some_iff, decide_eq_true_eq, agrees.cache_cooldown]
  constructor
  · rintro ⟨hsome, hlt⟩
    have hlatest := hinsert.mp ⟨hsome, (recent_iff_of_le (hfound time hsome) _).mp hlt⟩
    exact ⟨hlatest.1, hlt⟩
  · rintro ⟨latest, hlt⟩
    have hpast := le_of_visited agrees.past latest.1
    have hsome := hinsert.mpr ⟨latest, (recent_iff_of_le hpast _).mp hlt⟩
    exact ⟨hsome.1, hlt⟩

/-- After a call nothing that matters is forgotten. -/
theorem Agrees.ask (agrees : Agrees cooldown cache history now) (key : String) :
    Agrees cooldown (cache.ask (key, now)).1 (history.ask (key, now)).1 now := by
  rcases agrees.ask_cases key with ⟨hcache, hhistory⟩ | ⟨hcache, hhistory⟩
  · rw [hcache, hhistory]
    exact agrees
  · rw [hcache, hhistory]
    refine ⟨agrees.cache_cooldown, agrees.history_cooldown,
      fun emission mem => le_of_visited agrees.past mem, forgets_of_exact fun other time => ?_⟩
    rw [agrees.record key other time]
    exact and_congr_right fun latest =>
      recent_iff_of_le (le_of_visited agrees.past latest.1) _

end Step

/-- After a run up to an instant the two agree from there on. -/
theorem agrees_after (cooldown : Duration) {calls : List (String × Instant)}
    (sorted : Sorted Prod.snd calls) {now : Instant} (past : ∀ call ∈ calls, call.2 ≤ now) :
    Agrees cooldown (after DedupCache.ask (.new cooldown) calls)
      (after DedupHistory.ask (.new cooldown) calls) now := by
  induction calls using List.reverseRecOn generalizing now with
  | nil => exact agrees_new cooldown now
  | append_singleton before call ih =>
    obtain ⟨hbefore, _, hlast⟩ := List.pairwise_append.mp sorted
    have agrees := ih hbefore fun c hc => hlast c hc call (List.mem_singleton_self call)
    rw [after_concat, after_concat]
    exact (agrees.ask call.1).later (past call (by simp))

/-- For any cooldown: the cache answers every call as the one that deletes nothing does, and
after a call that lets its key pass it holds the keys whose last emission is less than the
cooldown before, with the time of that emission. -/
theorem dedup_gc_transparent (cooldown : Duration) (calls : List (String × Instant))
    (sorted : Sorted Prod.snd calls) :
    outputs DedupCache.ask (.new cooldown) calls =
      outputs DedupHistory.ask (.new cooldown) calls ∧
    ∀ past key now later, calls = past ++ (key, now) :: later →
      ((after DedupCache.ask (.new cooldown) past).ask (key, now)).2 = true →
      ∀ other time,
        (after DedupCache.ask (.new cooldown) (past ++ [(key, now)])).seen other = some time ↔
          Latest (after DedupHistory.ask (.new cooldown) (past ++ [(key, now)])).emitted
            other time ∧ Instant.saturatingDurationSince now time < cooldown := by
  constructor
  · induction calls using List.reverseRecOn with
    | nil => rfl
    | append_singleton before call ih =>
      obtain ⟨hbefore, _, hlast⟩ := List.pairwise_append.mp sorted
      have agrees := agrees_after cooldown hbefore fun c hc => hlast c hc call (by simp)
      rw [outputs_concat, outputs_concat, ih hbefore]
      rcases agrees.ask_cases call.1 with ⟨hcache, hhistory⟩ | ⟨hcache, hhistory⟩
      · rw [hcache, hhistory]
      · rw [hcache, hhistory]
  · rintro past key now later rfl emits other time
    obtain ⟨hpast, _, hlater⟩ := List.pairwise_append.mp sorted
    have agrees := agrees_after cooldown hpast fun c hc => hlater c hc (key, now) (by simp)
    rw [after_concat, after_concat]
    rcases agrees.ask_cases key with ⟨hcache, _⟩ | ⟨hcache, hhistory⟩
    · rw [hcache] at emits
      cases emits
    · rw [hcache, hhistory]
      exact agrees.record key other time

/-- Ten nanoseconds of cooldown: `a` is swept by `b` and passes again, exactly when its
cooldown is over. -/
theorem dedup_gc_transparent_boundary :
    outputs DedupCache.ask (.new 10) [("a", 0), ("a", 9), ("b", 10), ("a", 10)] =
      [true, false, true, true] ∧
    outputs DedupHistory.ask (.new 10) [("a", 0), ("a", 9), ("b", 10), ("a", 10)] =
      [true, false, true, true] ∧
    (after DedupCache.ask (.new 10) [("a", 0), ("a", 9), ("b", 10)]).seen "a" = none := by
  have transparent := dedup_gc_transparent 10 [("a", 0), ("a", 9), ("b", 10), ("a", 10)]
    (by decide)
  have hcache : outputs DedupCache.ask (.new 10) [("a", 0), ("a", 9), ("b", 10), ("a", 10)] =
      [true, false, true, true] := by decide
  refine ⟨hcache, transparent.1.symm.trans hcache, ?_⟩
  have held := transparent.2 [("a", 0), ("a", 9)] "b" 10 [("a", 10)] rfl (by decide) "a"
  rw [Option.eq_none_iff_forall_ne_some]
  intro time hsome
  obtain ⟨latest, hlt⟩ := (held time).mp hsome
  have hemitted : (after DedupHistory.ask (.new 10) [("a", 0), ("a", 9), ("b", 10)]).emitted =
      [("a", 0), ("b", 10)] := by decide
  rw [List.cons_append, List.cons_append, List.nil_append, hemitted] at latest
  obtain rfl : time = 0 := by simpa using latest.1
  exact absurd hlt (by decide)

end Watchtower.RateLimit
