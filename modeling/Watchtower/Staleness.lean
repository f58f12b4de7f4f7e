import Mathlib.Algebra.Group.Nat.Defs
import Watchtower.Heartbeat

/-!
# The staleness check

`HeartbeatConfig::from_env` and the ticks it leads to, and the script that reads the age
of the heartbeat file. Both read the same environment. A variable that is not set is
`none`.
-/

namespace Watchtower.Heartbeat

open Chrono

structure Environment where
  heartbeatPath : Option String
  heartbeatIntervalSecs : Option String
  heartbeatStaleSecs : Option String
  ntfyUrl : Option String
  ntfyTopic : Option String
  ntfyToken : Option String

/-- `from_str` of an unsigned number: decimal digits, with or without a plus sign. -/
def parseUnsigned (bits : Nat) (text : String) : Option Nat :=
  let digits := match text.toList with
    | '+' :: rest => rest
    | all => all
  let value := Nat.ofDigitChars 10 digits 0
  if digits ≠ [] ∧ digits.all Char.isDigit ∧ value < 2 ^ bits then some value else none

/-- `u64::from_str` -/
def parseU64 : String → Option Nat := parseUnsigned 64

structure HeartbeatConfig where
  path : String
  interval : Duration
  deriving DecidableEq, Repr

def HeartbeatConfig.default : HeartbeatConfig where
  path := defaultHeartbeatPath
  interval := Duration.seconds defaultIntervalSecs

/-- An interval out of range falls back to the default. -/
def intervalSecs (value : Option String) : Nat :=
  ((value.bind parseU64).filter fun n => minIntervalSecs ≤ n ∧ n ≤ maxIntervalSecs).getD
    defaultIntervalSecs

def HeartbeatConfig.fromEnv (env : Environment) : HeartbeatConfig where
  path := (env.heartbeatPath.filter (· ≠ "")).getD defaultHeartbeatPath
  interval := Duration.seconds (intervalSecs env.heartbeatIntervalSecs)

theorem HeartbeatConfig.fromEnv_unset {env : Environment} (path : env.heartbeatPath = none)
    (interval : env.heartbeatIntervalSecs = none) : fromEnv env = HeartbeatConfig.default := by
  rw [fromEnv, path, interval]
  rfl

/-- The times the heartbeat is written at. -/
def HeartbeatConfig.tick (config : HeartbeatConfig) (start : DateTime) (k : Nat) : DateTime :=
  start + k * config.interval

/-- `${NAME:-word}` -/
def expandOr (value : Option String) (word : String) : String :=
  (value.filter (· ≠ "")).getD word

/-- A number of an arithmetic expression: 64 bits that wrap, octal after a zero. -/
def arithmetic (text : String) : Option Int :=
  match text.toList with
  | '0' :: digits =>
    if digits.all fun c => c.toNat < 0x38 then
      some (BitVec.ofNat 64 (Nat.ofDigitChars 8 digits 0)).toInt
    else none
  | digits => some (BitVec.ofNat 64 (Nat.ofDigitChars 10 digits 0)).toInt

/-- `(( left < right ))`, which is also false where a number cannot be read. -/
def lessThan (left right : Option Int) : Bool :=
  match left, right with
  | some a, some b => a < b
  | _, _ => false

/-- What `-e`, `-f` and `stat -c %Y` find at a path. -/
inductive PathStatus where
  | missing
  | irregular
  | regular (mtimeSecs : Option Int)

/-- What is passed to `curl`. -/
structure Page where
  url : String
  headers : List String
  body : String
  deriving DecidableEq, Repr

structure Outcome where
  exitCode : Nat
  page : Option Page
  stderr : Option String
  deriving DecidableEq, Repr

namespace Script
variable (env : Environment)

def heartbeatPath : String :=
  expandOr env.heartbeatPath "/var/lib/plausiden-watchtower/heartbeat"

def thresholdSecs : String := expandOr env.heartbeatStaleSecs "300"

def ntfyUrl : String := expandOr env.ntfyUrl ""

def ntfyTopic : String := expandOr env.ntfyTopic "sacredvote-watchtower"

def ntfyToken : String := expandOr env.ntfyToken ""

/-- `${NTFY_URL%/}` -/
def strippedUrl : String :=
  if (ntfyUrl env).toList.getLast? = some '/' then String.ofList (ntfyUrl env).toList.dropLast
  else ntfyUrl env

def message (reason age : String) : String :=
  "Watchtower heartbeat " ++ reason ++ " (age=" ++ age ++ "s, threshold=" ++ thresholdSecs env ++
    "s, path=" ++ heartbeatPath env ++ "). Investigate: systemctl status plausiden-watchtower"

/-- The request is made, and may fail. -/
def alert (reason age : String) (curl : Bool) : Outcome where
  exitCode := if curl then 1 else 2
  page := some
    { url := strippedUrl env ++ "/" ++ ntfyTopic env
      headers := ["Title: Watchtower silent", "Priority: urgent", "Tags: rotating_light"] ++
        if ntfyToken env = "" then [] else ["Authorization: Bearer " ++ ntfyToken env]
      body := message env reason age }
  stderr := some <| "watchtower-staleness-check: " ++
    (if curl then "alerted — " else "alert FAILED (curl error) — ") ++ message env reason age

def age (mtimeSecs : Option Int) (now : Int) : Int := now - mtimeSecs.getD 0

/-- One run of the script, on what it finds at the path, the time and what becomes of the
request. -/
def run (status : String → PathStatus) (now : Int) (curl : Bool) : Outcome :=
  if ntfyUrl env = "" then
    ⟨2, none, some "watchtower-staleness-check: NTFY_URL not set — cannot alert"⟩
  else if ¬ ((thresholdSecs env).toList ≠ [] ∧ (thresholdSecs env).toList.all Char.isDigit) ∨
      lessThan (arithmetic (thresholdSecs env)) (some 60) then
    ⟨2, none, some <| "watchtower-staleness-check: WATCHTOWER_HEARTBEAT_STALE_SECS must be " ++
      "integer >=60 (got: " ++ thresholdSecs env ++ ")"⟩
  else match status (heartbeatPath env) with
    | .missing => alert env "missing" "unknown" curl
    | .irregular => ⟨2, none, some <| "watchtower-staleness-check: " ++ heartbeatPath env ++
        " exists but is not a regular file"⟩
    | .regular mtimeSecs =>
      if lessThan (some (age mtimeSecs now)) (arithmetic (thresholdSecs env)) then
        ⟨0, none, none⟩
      else alert env "stale" (toString (age mtimeSecs now)) curl

theorem heartbeatPath_eq : heartbeatPath env = (HeartbeatConfig.fromEnv env).path := rfl

theorem run_page_of_fresh {status : String → PathStatus} {mtimeSecs : Option Int} {now : Int}
    (h : status (heartbeatPath env) = .regular mtimeSecs)
    (fresh : lessThan (some (age mtimeSecs now)) (arithmetic (thresholdSecs env)) = true)
    (curl : Bool) : (run env status now curl).page = none := by
  rw [run, h]
  dsimp only
  rw [if_pos fresh]
  split
  · rfl
  · split
    · rfl
    · rfl

end Script

/-- The last time at or before `t` that the heartbeat was written. -/
def HeartbeatConfig.lastWrite (config : HeartbeatConfig) (start t : DateTime) : DateTime :=
  config.tick start ((t - start) / config.interval).toNat

/-- The last of the multiples of a positive period that is not after `t`. -/
theorem last_multiple_bounds {start t period : Int} (pos : 0 < period) (h : start ≤ t) :
    start + ((t - start) / period).toNat * period ≤ t ∧
      t < start + ((t - start) / period).toNat * period + period := by
  have hcount : (((t - start) / period).toNat : Int) = (t - start) / period :=
    Int.toNat_of_nonneg (Int.ediv_nonneg (by omega) (by omega))
  have hle := Int.ediv_mul_le (t - start) (Int.ne_of_gt pos)
  have hlt := Int.lt_ediv_add_one_mul_self (t - start) pos
  rw [Int.add_mul, Int.one_mul] at hlt
  rw [hcount]
  omega

/-- Within the seconds `n` after `w` the clock shows at most `n` more, and fewer if `w` was
a whole second. -/
theorem timestamp_sub_le {w t n : Int} (h : t < w + n * 1000000000) :
    DateTime.timestamp t - DateTime.timestamp w ≤ n ∧
      (w % 1000000000 = 0 → DateTime.timestamp t - DateTime.timestamp w < n) := by
  rw [DateTime.timestamp, DateTime.timestamp]
  omega

theorem timestamp_add (w n : Int) :
    DateTime.timestamp (w + n * 1000000000) - DateTime.timestamp w = n := by
  rw [DateTime.timestamp, DateTime.timestamp]
  omega

/-- A fraction of a second that is under way makes up for the nanosecond. -/
theorem timestamp_add_pred {w n : Int} (h : ¬ w % 1000000000 = 0) :
    DateTime.timestamp (w + n * 1000000000 - 1) - DateTime.timestamp w = n := by
  rw [DateTime.timestamp, DateTime.timestamp]
  omega

theorem seconds_lt {m n : Nat} (h : m < n) : Duration.seconds m < Duration.seconds n := by
  exact Int.mul_lt_mul_of_pos_right (Int.ofNat_lt.mpr h) (by decide)

theorem late_enough {start : Int} {n : Nat} (pos : 0 < n) :
    start ≤ start + Duration.seconds n ∧ start ≤ start + Duration.seconds n - 1 := by
  rw [Duration.seconds]
  omega

section Age
variable {config : HeartbeatConfig} {secs : Nat}
  (interval : config.interval = Duration.seconds secs)
include interval

theorem HeartbeatConfig.lastWrite_bounds (pos : 0 < secs) {start t : DateTime}
    (h : start ≤ t) : config.lastWrite start t ≤ t ∧
      t < config.lastWrite start t + Duration.seconds secs := by
  have hpos : 0 < config.interval := by
    rw [interval]
    exact Int.mul_pos (Int.natCast_pos.mpr pos) (by decide)
  rw [← interval]
  exact last_multiple_bounds hpos h

theorem HeartbeatConfig.lastWrite_first {start t : DateTime} (h : start ≤ t)
    (early : t < start + Duration.seconds secs) : config.lastWrite start t = start := by
  have hcount : (t - start) / config.interval = 0 := by
    rw [interval]
    exact Int.ediv_eq_zero_of_lt (Int.sub_nonneg.mpr h) (Int.sub_left_lt_of_lt_add early)
  rw [lastWrite, hcount, tick]
  simp

/-- Every write comes at the same fraction of a second. -/
theorem HeartbeatConfig.lastWrite_emod (start t : DateTime) :
    config.lastWrite start t % 1000000000 = start % 1000000000 := by
  rw [lastWrite, tick, interval, Duration.seconds, ← Int.mul_assoc]
  exact Int.add_mul_emod_self_right ..

/-- The age stays under a limit just if the interval does, or meets it on whole seconds. -/
theorem HeartbeatConfig.age_lt_iff (pos : 0 < secs) (limit : Nat) (hlimit : 0 < limit)
    (start : DateTime) :
    (∀ t, start ≤ t → t.timestamp - (config.lastWrite start t).timestamp < limit) ↔
      secs < limit ∨ secs = limit ∧ start % 1000000000 = 0 := by
  constructor
  · intro young
    by_contra hnot
    rw [not_or, not_and, Nat.not_lt] at hnot
    rcases Nat.lt_or_eq_of_le hnot.1 with hlong | rfl
    · have hage := young (start + Duration.seconds limit) (late_enough hlimit).1
      rw [config.lastWrite_first interval (late_enough hlimit).1
        (Int.add_lt_add_left (seconds_lt hlong) start), Duration.seconds, timestamp_add] at hage
      exact Int.lt_irrefl _ hage
    · have hage := young (start + Duration.seconds limit - 1) (late_enough hlimit).2
      rw [config.lastWrite_first interval (late_enough hlimit).2 (Int.sub_lt_self _ (by decide)),
        Duration.seconds, timestamp_add_pred (hnot.2 rfl)] at hage
      exact Int.lt_irrefl _ hage
  · rintro (hshort | ⟨rfl, hwhole⟩) t h
    · have hage := timestamp_sub_le (config.lastWrite_bounds interval pos h).2
      exact Int.lt_of_le_of_lt hage.1 (Int.ofNat_lt.mpr hshort)
    · have hage := timestamp_sub_le (config.lastWrite_bounds interval pos h).2
      exact hage.2 ((config.lastWrite_emod interval start t).trans hwhole)

end Age

/-- An interval that was accepted, or the default. -/
theorem intervalSecs_cases (value : Option String) :
    (∃ n, value.bind parseU64 = some n ∧ intervalSecs value = n ∧ 10 ≤ n ∧ n ≤ 600) ∨
      intervalSecs value = 60 ∧
        ∀ n, value.bind parseU64 = some n → ¬ (10 ≤ n ∧ n ≤ 600) := by
  cases hvalue : value.bind parseU64 with
  | none =>
    refine .inr ⟨by rw [intervalSecs, hvalue]; rfl, fun n h => ?_⟩
    cases h
  | some n =>
    by_cases hrange : 10 ≤ n ∧ n ≤ 600
    · refine .inl ⟨n, rfl, ?_, hrange⟩
      simp [intervalSecs, hvalue, minIntervalSecs, maxIntervalSecs, Option.filter, hrange]
    · refine .inr ⟨?_, fun m h => ?_⟩
      · simp [intervalSecs, hvalue, minIntervalSecs, maxIntervalSecs, Option.filter, hrange,
          defaultIntervalSecs]
      · obtain rfl := Option.some.inj h
        exact hrange

/-- Also the default is in the range. -/
theorem intervalSecs_bounds (value : Option String) :
    minIntervalSecs ≤ intervalSecs value ∧ intervalSecs value ≤ maxIntervalSecs := by
  rcases intervalSecs_cases value with ⟨n, _, hsecs, hrange⟩ | ⟨hsecs, _⟩
  · rw [hsecs]
    exact hrange
  · rw [hsecs]
    decide

section Unset
variable (env : Environment)

/-- At no time after the first write is the heartbeat too old for the script. -/
def NeverStale (start : DateTime) : Prop :=
  ∀ (t : DateTime) (status : String → PathStatus) (curl : Bool), start ≤ t →
    status (HeartbeatConfig.fromEnv env).path =
      .regular (some ((HeartbeatConfig.fromEnv env).lastWrite start t).timestamp) →
    lessThan
      (some (Script.age
        (some ((HeartbeatConfig.fromEnv env).lastWrite start t).timestamp) t.timestamp))
      (arithmetic (Script.thresholdSecs env)) = true ∧
    (Script.run env status t.timestamp curl).page = none

theorem neverStale_iff_age (unset : env.heartbeatStaleSecs = none) (start : DateTime) :
    NeverStale env start ↔ ∀ t, start ≤ t →
      t.timestamp - ((HeartbeatConfig.fromEnv env).lastWrite start t).timestamp < 300 := by
  have hthreshold : arithmetic (Script.thresholdSecs env) = some 300 := by
    rw [Script.thresholdSecs, unset]
    decide
  have hfresh : ∀ t, lessThan
      (some (Script.age
        (some ((HeartbeatConfig.fromEnv env).lastWrite start t).timestamp) t.timestamp))
      (arithmetic (Script.thresholdSecs env)) = true ↔
      t.timestamp - ((HeartbeatConfig.fromEnv env).lastWrite start t).timestamp < 300 := by
    intro t
    rw [hthreshold]
    exact decide_eq_true_iff
  constructor
  · intro never t h
    exact (hfresh t).mp (never t (fun _ => .regular _) true h rfl).1
  · intro young t status curl h hstatus
    rw [← Script.heartbeatPath_eq] at hstatus
    have hage := (hfresh t).mpr (young t h)
    exact ⟨hage, Script.run_page_of_fresh env hstatus hage curl⟩

/-- The script pages just for the intervals from 300 to 600 seconds, where 300 seconds are
still well if every write falls on a whole second. -/
theorem neverStale_iff (unset : env.heartbeatStaleSecs = none) (start : DateTime) :
    NeverStale env start ↔ ∀ n, env.heartbeatIntervalSecs.bind parseU64 = some n →
      300 ≤ n → n ≤ 600 → n = 300 ∧ start % 1000000000 = 0 := by
  have hinterval : (HeartbeatConfig.fromEnv env).interval =
      Duration.seconds (intervalSecs env.heartbeatIntervalSecs) := rfl
  rw [neverStale_iff_age env unset]
  rcases intervalSecs_cases env.heartbeatIntervalSecs with
    ⟨n, hvalue, hsecs, hmin, hmax⟩ | ⟨hsecs, hnone⟩
  · rw [hsecs] at hinterval
    have hage := HeartbeatConfig.age_lt_iff hinterval (by omega) 300 (by decide) start
    rw [hvalue]
    refine hage.trans ⟨fun h m hm hlow _ => ?_, fun h => ?_⟩
    · obtain rfl := Option.some.inj hm
      exact h.resolve_left (by omega)
    · rcases Nat.lt_or_ge n 300 with hshort | hlong
      · exact .inl hshort
      · exact .inr (h n rfl hlong hmax)
  · rw [hsecs] at hinterval
    have hage := HeartbeatConfig.age_lt_iff hinterval (by decide) 300 (by decide) start
    refine hage.trans ⟨fun _ n hvalue hlow hhigh => ?_, fun _ => .inl (by decide)⟩
    exact absurd ⟨by omega, hhigh⟩ (hnone n hvalue)

end Unset

/-- Only the interval and the address are set. -/
def intervalOnly (value : String) : Environment where
  heartbeatPath := none
  heartbeatIntervalSecs := some value
  heartbeatStaleSecs := none
  ntfyUrl := some "https://ntfy.sh"
  ntfyTopic := none
  ntfyToken := none

theorem neverStale_iff_two_minutes : NeverStale (intervalOnly "120") 0 :=
  (neverStale_iff (intervalOnly "120") rfl 0).mpr fun n h hlow _ => by
    have hvalue : some 120 = some n := h
    obtain rfl := Option.some.inj hvalue
    exact absurd hlow (by decide)

/-- With ten minutes between two writes, the daemon is dead to the script for five. -/
theorem ten_minutes_stale :
    ¬ ∀ (env : Environment) (start : DateTime), env.heartbeatStaleSecs = none →
      NeverStale env start := by
  intro all
  have hage := (neverStale_iff_age (intervalOnly "600") rfl 0).mp
    (all (intervalOnly "600") 0 rfl) (Duration.seconds 300) (by decide)
  exact absurd hage (by decide)

end Watchtower.Heartbeat
