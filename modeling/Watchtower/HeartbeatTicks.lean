import Watchtower.Foundation.Selection
import Watchtower.Foundation.SkippedTicks
import Watchtower.Staleness

/-!
# The dead man's switch

The loop of `self_monitor::run` on a clock, with ticks that come late and writes that take
their time, and the staleness check beside it. The timer is that of the runtime, of which the
loop uses that it skips missed ticks.
-/

namespace Watchtower.Heartbeat

open Chrono Selection SkippedTicks

/-- One turn of the loop: it is free from the end of the last one on, and goes on when the
tick has come. Where it changes the file it does so before it is over, also if the write
fails in the end. -/
structure Turn where
  deadline : DateTime
  free : DateTime
  woken : DateTime
  done : DateTime
  stamps : List DateTime
  due : deadline ≤ woken
  awaited : free ≤ woken
  ended : woken ≤ done
  stamped : ∀ s ∈ stamps, woken ≤ s ∧ s ≤ done

/-- The next turn waits for the next tick. -/
def Turn.Follows (next : DateTime → DateTime → DateTime) (a b : Turn) : Prop :=
  b.deadline = next a.deadline a.woken ∧ b.free = a.done

/-- The turns of the loop. The first tick comes at once. -/
structure Loop (next : DateTime → DateTime → DateTime) (start : DateTime) (turns : List Turn) :
    Prop where
  first : ∀ turn ∈ turns.head?, turn.deadline = start ∧ turn.free = start
  follows : turns.IsChain (Turn.Follows next)

theorem ticks_of_chain {next : DateTime → DateTime → DateTime} {turns : List Turn}
    (follows : turns.IsChain (Turn.Follows next)) {deadline : DateTime}
    (first : ∀ turn ∈ turns.head?, turn.deadline = deadline) :
    Ticks next deadline (turns.map Turn.woken) := by
  induction turns generalizing deadline with
  | nil => exact .none deadline
  | cons turn later ih =>
    have hdeadline := first turn rfl
    have hlater := ih follows.tail fun other mem => by
      cases later with
      | nil => cases mem
      | cons b rest =>
        obtain rfl := Option.some.inj mem
        exact (List.isChain_cons_cons.mp follows).1.1
    rw [hdeadline] at hlater
    exact .tick (hdeadline ▸ turn.due) hlater

theorem interval_pos (env : Environment) : 0 < (HeartbeatConfig.fromEnv env).interval := by
  have hpos := (intervalSecs_bounds env.heartbeatIntervalSecs).1
  have hsecs : 0 < intervalSecs env.heartbeatIntervalSecs := Nat.lt_of_lt_of_le (by decide) hpos
  exact Int.mul_pos (Int.natCast_pos.mpr hsecs) (by decide)

section Phase
variable {env : Environment} {next : DateTime → DateTime → DateTime}
  (skips : Skips (HeartbeatConfig.fromEnv env).interval next)
include skips

/-- The deadlines stay in step with the start. -/
theorem deadline_tick {turns : List Turn} (follows : turns.IsChain (Turn.Follows next))
    {start : DateTime} {k : Nat}
    (first : ∀ turn ∈ turns.head?, turn.deadline = (HeartbeatConfig.fromEnv env).tick start k) :
    ∀ turn ∈ turns, ∃ k, turn.deadline = (HeartbeatConfig.fromEnv env).tick start k := by
  induction turns generalizing k with
  | nil => exact fun turn mem => absurd mem List.not_mem_nil
  | cons turn later ih =>
    have hdeadline := first turn rfl
    obtain ⟨m, hm⟩ := skips.next_eq (interval_pos env) turn.due
    intro other mem
    rcases List.mem_cons.mp mem with rfl | mem
    · exact ⟨k, hdeadline⟩
    · refine ih follows.tail (k := k + m) (fun b hb => ?_) other mem
      cases later with
      | nil => cases hb
      | cons c rest =>
        obtain rfl := Option.some.inj hb
        have hnext := (List.isChain_cons_cons.mp follows).1.1
        rw [HeartbeatConfig.tick] at hdeadline ⊢
        rw [hnext, hm, hdeadline, Int.natCast_add, Int.add_mul, Int.add_assoc]

end Phase

/-- However long the loop was held up, it does not make up for the heartbeats it has missed:
the ticks stay in step with the first one, and no stretch has more of them than periods. -/
theorem no_catch_up (env : Environment) (next : DateTime → DateTime → DateTime)
    (skips : Skips (HeartbeatConfig.fromEnv env).interval next) (start : DateTime)
    (turns : List Turn) (loop : Loop next start turns) :
    (∀ turn ∈ turns, ∃ k, turn.deadline = (HeartbeatConfig.fromEnv env).tick start k) ∧
    ∀ lo hi : DateTime, lo ≤ hi →
      ((turns.countP fun turn => lo ≤ turn.woken ∧ turn.woken ≤ hi : Nat) : Int) ≤
        (hi - lo) / (HeartbeatConfig.fromEnv env).interval + 2 := by
  refine ⟨deadline_tick skips loop.follows (k := 0) fun turn mem => ?_, fun lo hi span => ?_⟩
  · rw [(loop.first turn mem).1, HeartbeatConfig.tick]
    simp
  · have hticks := ticks_of_chain loop.follows fun turn mem => (loop.first turn mem).1
    have hcount := hticks.count_le skips (interval_pos env) span
    rw [List.countP_map] at hcount
    exact hcount

/-- The script has an address and a threshold that it accepts. -/
structure Script.Armed (env : Environment) (n : Int) : Prop where
  url : Script.ntfyUrl env ≠ ""
  digits : (Script.thresholdSecs env).toList ≠ [] ∧
    (Script.thresholdSecs env).toList.all Char.isDigit
  threshold : arithmetic (Script.thresholdSecs env) = some n
  sixty : 60 ≤ n

section Armed
variable {env : Environment} {n : Int} (armed : Script.Armed env n)
  {status : String → PathStatus}
include armed

/-- What an armed script does is decided by what it finds. -/
theorem Script.run_armed (now : Int) (curl : Bool) : Script.run env status now curl =
    match status (HeartbeatConfig.fromEnv env).path with
    | .missing => Script.alert env "missing" "unknown" curl
    | .irregular => ⟨2, none, some <| "watchtower-staleness-check: " ++ heartbeatPath env ++
        " exists but is not a regular file"⟩
    | .regular mtimeSecs =>
      if Script.age mtimeSecs now < n then ⟨0, none, none⟩
      else Script.alert env "stale" (toString (Script.age mtimeSecs now)) curl := by
  have hsixty : lessThan (some n) (some 60) = false :=
    decide_eq_false (Int.not_lt.mpr armed.sixty)
  rw [Script.run, if_neg armed.url, armed.threshold, hsixty, ← Script.heartbeatPath_eq]
  rw [if_neg (by rw [not_or, not_not]; exact ⟨armed.digits, Bool.false_ne_true⟩)]
  cases status (Script.heartbeatPath env) with
  | missing => rfl
  | irregular => rfl
  | regular mtimeSecs => simp only [lessThan, decide_eq_true_eq]

end Armed

section Switch

/-- A turn that comes and goes in time. -/
def Turn.Timely (late slow : Duration) (turn : Turn) : Prop :=
  turn.woken ≤ max turn.deadline turn.free + late ∧ turn.done ≤ turn.woken + slow

theorem timestamp_sub_ge {w t n : Int} (h : w + n * 1000000000 ≤ t) :
    n ≤ DateTime.timestamp t - DateTime.timestamp w := by
  rw [DateTime.timestamp, DateTime.timestamp]
  omega

/-- The time the file was last changed at, as a check finds it. -/
def lastStamp (turns : List Turn) (now : DateTime) : Option DateTime :=
  ((turns.flatMap Turn.stamps).filter (· ≤ now)).max?

/-- What the check finds at the path: the file of the daemon, or what was there before it. -/
def found (before : PathStatus) (turns : List Turn) (now : DateTime) : PathStatus :=
  match lastStamp turns now with
  | none => before
  | some s => .regular (some s.timestamp)

/-- No more than `m` turns in a row leave the file alone. -/
def Beats (m : Nat) (turns : List Turn) : Prop :=
  ∀ gap, gap <:+: turns → (∀ turn ∈ gap, turn.stamps = []) → gap.length ≤ m

theorem beats_of_countP {m : Nat} {turns : List Turn}
    (few : (turns.countP fun turn => turn.stamps.isEmpty) ≤ m) : Beats m turns := by
  intro gap hinfix hgap
  have hall : (gap.countP fun turn => turn.stamps.isEmpty) = gap.length :=
    List.countP_eq_length.mpr fun turn mem => List.isEmpty_iff.mpr (hgap turn mem)
  rw [← hall]
  exact Nat.le_trans hinfix.sublist.countP_le few

theorem lastStamp_eq_some {turns : List Turn} {now s : DateTime} :
    lastStamp turns now = some s ↔ ((∃ turn ∈ turns, s ∈ turn.stamps) ∧ s ≤ now) ∧
      ∀ turn ∈ turns, ∀ r ∈ turn.stamps, r ≤ now → r ≤ s := by
  rw [lastStamp, List.max?_eq_some_iff]
  simp only [List.mem_filter, List.mem_flatMap, decide_eq_true_eq, and_imp, forall_exists_index]
  exact and_congr_right fun _ => ⟨fun h turn mem r hr hle => h r turn mem hr hle,
    fun h r turn mem hr hle => h turn mem r hr hle⟩

/-- A file that was changed has been changed last at some time. -/
theorem exists_lastStamp {turns : List Turn} {now s : DateTime} {turn : Turn}
    (mem : turn ∈ turns) (stamped : s ∈ turn.stamps) (past : s ≤ now) :
    ∃ w, lastStamp turns now = some w ∧ s ≤ w := by
  cases hlast : lastStamp turns now with
  | none =>
    rw [lastStamp, List.max?_eq_none_iff, List.filter_eq_nil_iff] at hlast
    exact absurd (decide_eq_true past) (hlast s (List.mem_flatMap.mpr ⟨turn, mem, stamped⟩))
  | some w => exact ⟨w, rfl, (lastStamp_eq_some.mp hlast).2 turn mem s stamped past⟩

section Timing
variable {next : DateTime → DateTime → DateTime} {interval late slow : Duration}

/-- A turn is over when a later one comes. -/
theorem done_le_woken {turns : List Turn} (follows : turns.IsChain (Turn.Follows next)) :
    turns.Pairwise fun a b => a.done ≤ b.woken := by
  have hchain : turns.IsChain fun a b => a.done ≤ b.woken :=
    follows.imp fun a b (h : a.Follows next b) => h.2 ▸ b.awaited
  have : IsTrans Turn fun a b => a.done ≤ b.woken :=
    ⟨fun a b c hab hbc => Int.le_trans hab (Int.le_trans b.ended hbc)⟩
  exact List.isChain_iff_pairwise.mp hchain

theorem next_gap {interval late slow woken done deadline woken' : Int}
    (soon : deadline ≤ woken + interval) (quick : done ≤ woken + slow)
    (timely : woken' ≤ max deadline done + late) :
    woken' ≤ woken + (max interval slow + late) := by
  omega

theorem late_nonneg {woken deadline free late : Int} (timely : woken ≤ max deadline free + late)
    (due : deadline ≤ woken) (awaited : free ≤ woken) : 0 ≤ late := by
  omega

theorem age_le {now done woken slow begun steps stamp : Int} (running : now ≤ done)
    (quick : done ≤ woken + slow) (gap : woken ≤ begun + steps) (stamped : begun ≤ stamp) :
    now ≤ stamp + (steps + slow) := by
  omega

/-- From one turn to the next it takes a period, or as long as the turn takes. -/
theorem woken_le_next (skips : Skips interval next) {a b : Turn} (follows : a.Follows next b)
    (first : a.Timely late slow) (second : b.Timely late slow) :
    b.woken ≤ a.woken + (max interval slow + late) := by
  obtain ⟨hdeadline, hfree⟩ := follows
  have hsoon := skips.soonest a.deadline a.woken a.due
  obtain ⟨_, hquick⟩ := first
  obtain ⟨hwoken, _⟩ := second
  rw [← hdeadline] at hsoon
  rw [hfree] at hwoken
  exact next_gap hsoon hquick hwoken

theorem woken_le_after (skips : Skips interval next) {a b : Turn} {gap : List Turn}
    (follows : (a :: gap ++ [b]).IsChain (Turn.Follows next))
    (timely : ∀ turn ∈ a :: gap ++ [b], turn.Timely late slow) :
    b.woken ≤ a.woken + ((gap.length : Int) + 1) * (max interval slow + late) := by
  induction gap generalizing a with
  | nil =>
    have hfollows := (List.isChain_cons_cons.mp follows).1
    have hnext := woken_le_next skips hfollows (timely a (by simp)) (timely b (by simp))
    simpa using hnext
  | cons c gap ih =>
    obtain ⟨hfollows, hlater⟩ := List.isChain_cons_cons.mp follows
    have hnext := woken_le_next skips hfollows (timely a (by simp)) (timely c (by simp))
    have hrest := ih hlater fun turn mem => timely turn (List.mem_cons_of_mem a mem)
    refine Int.le_trans hrest (Int.le_trans (Int.add_le_add_right hnext _) (Int.le_of_eq ?_))
    rw [List.length_cons, Int.natCast_succ, Int.add_mul (_ + 1), Int.one_mul, Int.add_assoc,
      Int.add_comm (max interval slow + late)]

/-- Over turns that leave the file alone it takes no longer than over the most there can be. -/
theorem woken_le_of_alone (skips : Skips interval next) {front gap later : List Turn} {a b : Turn}
    (follows : (front ++ a :: gap ++ b :: later).IsChain (Turn.Follows next))
    (timely : ∀ turn ∈ front ++ a :: gap ++ b :: later, turn.Timely late slow) {m : Nat}
    (beats : Beats m (front ++ a :: gap ++ b :: later)) (step : 0 ≤ max interval slow + late)
    (alone : ∀ turn ∈ gap, turn.stamps = []) :
    b.woken ≤ a.woken + ((m : Int) + 1) * (max interval slow + late) := by
  have hfew := beats gap ⟨front ++ [a], b :: later, by simp⟩ alone
  have hwhole : front ++ a :: gap ++ b :: later = front ++ (a :: gap ++ [b]) ++ later := by simp
  rw [hwhole] at follows timely
  have hchain := (List.isChain_append.mp (List.isChain_append.mp follows).1).2.1
  have hwoken := woken_le_after skips hchain fun turn mem =>
    timely turn (List.mem_append_left _ (List.mem_append_right _ mem))
  have hturns : ((gap.length : Int) + 1) * (max interval slow + late) ≤
      ((m : Int) + 1) * (max interval slow + late) :=
    Int.mul_le_mul_of_nonneg_right (by omega) step
  exact Int.le_trans hwoken (Int.add_le_add_left hturns _)

/-- Until the loop ends its turn, the file is never older than `m + 1` turns take. -/
theorem exists_fresh (skips : Skips interval next) {turns : List Turn}
    (follows : turns.IsChain (Turn.Follows next)) (timely : ∀ turn ∈ turns, turn.Timely late slow)
    {m : Nat} (beats : Beats m turns) (step : 0 ≤ max interval slow + late) {now : DateTime}
    (begun : ∃ turn ∈ turns, ∃ s ∈ turn.stamps, s ≤ now)
    (running : ∃ turn ∈ turns, now ≤ turn.done) :
    ∃ turn ∈ turns, ∃ s ∈ turn.stamps, s ≤ now ∧
      now ≤ s + (((m : Int) + 1) * (max interval slow + late) + slow) := by
  obtain ⟨last, hlast, hdone⟩ := running
  have hsome : (turns.find? fun turn => decide (now ≤ turn.done)).isSome :=
    List.find?_isSome.mpr ⟨last, hlast, decide_eq_true hdone⟩
  obtain ⟨b, hfind⟩ := Option.isSome_iff_exists.mp hsome
  obtain ⟨hnow, early, later, rfl, hearly⟩ := List.find?_eq_some_iff_append.mp hfind
  replace hnow := of_decide_eq_true hnow
  have hslow : b.done ≤ b.woken + slow := (timely b (by simp)).2
  have hall : 0 ≤ ((m : Int) + 1) * (max interval slow + late) :=
    Int.mul_nonneg (by omega) step
  obtain ⟨c, hc, s, hs, hpast⟩ := begun
  rcases List.mem_append.mp hc with hc | hc
  · -- the last turn before `b` that changed the file
    have hexists : ∃ turn ∈ early, turn.stamps ≠ [] := ⟨c, hc, List.ne_nil_of_mem hs⟩
    obtain ⟨front, a, gap, rfl, hstamps, hgap⟩ := exists_last hexists
    obtain ⟨r, hr⟩ := List.exists_mem_of_ne_nil _ hstamps
    have hwoken := woken_le_of_alone skips follows timely beats step fun turn mem =>
      not_not.mp (hgap turn mem)
    obtain ⟨hr_woken, hr_done⟩ := a.stamped r hr
    have hbefore : ¬ now ≤ a.done := by simpa using hearly a (by simp)
    exact ⟨a, by simp, r, hr, Int.le_trans hr_done (Int.le_of_lt (Int.not_le.mp hbefore)),
      age_le hnow hslow hwoken hr_woken⟩
  · have hwoken : b.woken ≤ c.woken := by
      rcases List.mem_cons.mp hc with rfl | hc
      · exact Int.le_refl _
      · have hlater := (List.pairwise_append.mp (done_le_woken follows)).2.1
        exact Int.le_trans b.ended ((List.pairwise_cons.mp hlater).1 c hc)
    exact ⟨c, List.mem_append_right _ hc, s, hs, hpast, age_le hnow hslow
      (Int.le_trans hwoken (Int.le_add_of_nonneg_right hall)) (c.stamped s hs).1⟩

end Timing

/-- The daemon and the script on one environment. While the loop is on time and no more than
`m` turns in a row leave the file alone, no check says a word from the first change of the file
on. Whatever has become of the loop, every check that comes `n` seconds after the last change
of the file raises the alarm, and so does one that finds no file. -/
theorem dead_man_switch (env : Environment) (n : Int) (armed : Script.Armed env n)
    (next : DateTime → DateTime → DateTime)
    (skips : Skips (HeartbeatConfig.fromEnv env).interval next) (start : DateTime)
    (turns : List Turn) (loop : Loop next start turns) (before : PathStatus) (now : DateTime)
    (status : String → PathStatus) (curl : Bool)
    (sees : status (HeartbeatConfig.fromEnv env).path = found before turns now) :
    (∀ late slow : Duration, ∀ m : Nat, (∀ turn ∈ turns, turn.Timely late slow) →
      Beats m turns →
      ((m : Int) + 1) * (max (HeartbeatConfig.fromEnv env).interval slow + late) + slow <
        Duration.seconds (n - 1) →
      (∃ turn ∈ turns, ∃ s ∈ turn.stamps, s ≤ now) → (∃ turn ∈ turns, now ≤ turn.done) →
      Script.run env status now.timestamp curl = ⟨0, none, none⟩) ∧
    (∀ s, lastStamp turns now = some s → s + Duration.seconds n ≤ now →
      Script.run env status now.timestamp curl =
        Script.alert env "stale" (toString (now.timestamp - s.timestamp)) curl) ∧
    (lastStamp turns now = none → before = .missing →
      Script.run env status now.timestamp curl =
        Script.alert env "missing" "unknown" curl) := by
  refine ⟨fun late slow m timely beats room begun running => ?_, fun s hlast hold => ?_,
    fun hnone hmissing => ?_⟩
  · obtain ⟨last, hmem, _⟩ := id running
    have hlate := late_nonneg (timely last hmem).1 last.due last.awaited
    have hstep : 0 ≤ max (HeartbeatConfig.fromEnv env).interval slow + late :=
      Int.add_nonneg (Int.le_trans (Int.le_of_lt (interval_pos env)) (Int.le_max_left _ _)) hlate
    obtain ⟨turn, mem, s, hs, hpast, hyoung⟩ :=
      exists_fresh skips loop.follows timely beats hstep begun running
    obtain ⟨w, hlast, hle⟩ := exists_lastStamp mem hs hpast
    have hlt : now < w + (n - 1) * 1000000000 :=
      Int.lt_of_le_of_lt hyoung
        (Int.lt_of_lt_of_le (Int.add_lt_add_left room s) (Int.add_le_add_right hle _))
    have hage := (timestamp_sub_le hlt).1
    rw [Script.run_armed armed, sees, found, hlast]
    exact if_pos (Int.lt_of_le_of_lt hage (Int.sub_lt_self n (by decide)))
  · have hage := timestamp_sub_ge hold
    rw [Script.run_armed armed, sees, found, hlast]
    exact if_neg (Int.not_lt.mpr hage)
  · rw [Script.run_armed armed, sees, found, hnone, hmissing]

end Switch

/-- The timer of the runtime, which takes a tick that is five milliseconds late as on time. -/
def skipMissed (period deadline now : Int) : Int :=
  if deadline + 5000000 < now then now + period - (now - deadline) % period
  else deadline + period

theorem skipMissed_skips {period : Int} (h : 5000000 < period) :
    Skips period (skipMissed period) where
  multiple deadline now _ := by
    rw [skipMissed]
    split
    · have hsplit := Int.mul_ediv_add_emod (now - deadline) period
      refine ⟨(now - deadline) / period + 1, ?_⟩
      rw [Int.mul_add, Int.mul_one]
      omega
    · refine ⟨1, ?_⟩
      omega
  after deadline now due := by
    rw [skipMissed]
    have hrest := Int.emod_lt_of_pos (now - deadline) (Int.lt_trans (by decide) h)
    split
    · omega
    · omega
  soonest deadline now due := by
    rw [skipMissed]
    have hrest := Int.emod_nonneg (now - deadline)
      (Int.ne_of_gt (Int.lt_trans (by decide) h))
    split
    · omega
    · omega

/-- A turn whose heartbeat takes no time. -/
def Turn.swift (deadline free woken : DateTime) (due : deadline ≤ woken)
    (awaited : free ≤ woken) : Turn where
  deadline := deadline
  free := free
  woken := woken
  done := woken
  stamps := [woken]
  due := due
  awaited := awaited
  ended := Int.le_refl _
  stamped _ mem := List.mem_singleton.mp mem ▸ ⟨Int.le_refl _, Int.le_refl _⟩

theorem two_minutes_skips : Skips (HeartbeatConfig.fromEnv (intervalOnly "120")).interval
    (skipMissed (Duration.seconds 120)) :=
  skipMissed_skips (by decide)

/-- The loop is held up from the first heartbeat to the 500th second. -/
theorem no_catch_up_frozen : ∃ turns : List Turn,
    Loop (skipMissed (Duration.seconds 120)) 0 turns ∧
    turns.map Turn.woken = [0, Duration.seconds 500, Duration.seconds 600] ∧
      ((turns.countP fun turn => Duration.seconds 500 ≤ turn.woken ∧
        turn.woken ≤ Duration.seconds 600 : Nat) : Int) = 2 ∧
      ((turns.countP fun turn => Duration.seconds 500 ≤ turn.woken ∧
        turn.woken ≤ Duration.seconds 600 : Nat) : Int) ≤
          (Duration.seconds 600 - Duration.seconds 500) / Duration.seconds 120 + 2 := by
  have hloop : Loop (skipMissed (Duration.seconds 120)) 0
      [.swift 0 0 0 (by decide) (by decide),
        .swift (Duration.seconds 120) 0 (Duration.seconds 500) (by decide) (by decide),
        .swift (Duration.seconds 600) (Duration.seconds 500) (Duration.seconds 600) (by decide)
          (by decide)] := by
    refine ⟨fun turn mem => ?_, ?_⟩
    · obtain rfl := Option.some.inj mem
      exact ⟨rfl, rfl⟩
    · exact .cons_cons ⟨rfl, rfl⟩ (.cons_cons ⟨rfl, rfl⟩ (.singleton _))
  have hfew := (no_catch_up (intervalOnly "120") _ two_minutes_skips 0 _ hloop).2
    (Duration.seconds 500) (Duration.seconds 600) (by decide)
  exact ⟨_, hloop, rfl, by decide, hfew⟩

/-- The second of three heartbeats fails, with room for one failure. The check at 200 seconds
is quiet, and the one after the last heartbeat by 300 seconds is not. -/
theorem dead_man_switch_two_minutes : ∃ turns : List Turn,
    Loop (skipMissed (Duration.seconds 120)) 0 turns ∧
    Script.run (intervalOnly "120") (fun _ => found .missing turns (Duration.seconds 200)) 200
      true = ⟨0, none, none⟩ ∧
    (Script.run (intervalOnly "120") (fun _ => found .missing turns (Duration.seconds 540)) 540
      true).exitCode = 1 := by
  let failed : Turn :=
    { Turn.swift (Duration.seconds 120) 0 (Duration.seconds 120) (by decide) (by decide) with
      stamps := []
      stamped := fun s mem => absurd mem List.not_mem_nil }
  let turns : List Turn := [.swift 0 0 0 (by decide) (by decide), failed,
    .swift (Duration.seconds 240) (Duration.seconds 120) (Duration.seconds 240) (by decide)
      (by decide)]
  have hloop : Loop (skipMissed (Duration.seconds 120)) 0 turns := by
    refine ⟨fun turn mem => ?_, ?_⟩
    · obtain rfl := Option.some.inj mem
      exact ⟨rfl, rfl⟩
    · exact .cons_cons ⟨rfl, rfl⟩ (.cons_cons ⟨rfl, rfl⟩ (.singleton _))
  have harmed : Script.Armed (intervalOnly "120") 300 :=
    ⟨by decide, by decide, by decide, by decide⟩
  have switch := fun now => dead_man_switch (intervalOnly "120") 300 harmed _
    two_minutes_skips 0 turns hloop .missing now (fun _ => found .missing turns now) true rfl
  refine ⟨turns, hloop, ?_, ?_⟩
  · refine (switch (Duration.seconds 200)).1 (Duration.seconds 1) (Duration.seconds 1) 1 ?_
      (beats_of_countP (by decide)) (by decide)
      ⟨_, List.mem_cons_self, 0, List.mem_cons_self, by decide⟩
      ⟨_, List.mem_cons_of_mem _ (List.mem_cons_of_mem _ List.mem_cons_self), by decide⟩
    simp only [turns, failed, List.forall_mem_cons, Turn.Timely, Turn.swift]
    decide
  · have hdead := (switch (Duration.seconds 540)).2.1 (Duration.seconds 240) (by decide) (by decide)
    exact (congrArg Outcome.exitCode hdead).trans rfl

end Watchtower.Heartbeat
