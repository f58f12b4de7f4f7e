import Watchtower.BucketRuns
import Watchtower.Foundation.TimedLog

/-!
# The cooldown of a bucket

Whatever the clock does, `last_fired` is the time of the last alert of its bucket
and the next one is tested against it. Nothing here asks for sorted timestamps.
-/

namespace Watchtower.Classify

open Chrono Parse Machine TimedLog

/-- When the alerts of a (rule, key) pair were fired, in the order of the run. -/
def firedTimes (calls : List Call) (rule : Rule) (key : String) : List DateTime :=
  ((Classifier.new.alerts calls).filter (Alert.isFor rule key)).map Alert.firedAt

section Bucket
variable (rule : Rule) (key : String)

theorem lastFired_after (entries : List (DateTime × StructuredEvent)) :
    (after (observeHit rule key) .new entries).lastFired =
      ((bucketAlerts rule key entries).map Alert.firedAt).getLast? := by
  induction entries using List.reverseRecOn with
  | nil => rfl
  | append_singleton past entry ih =>
    rw [after_concat, bucketAlerts_concat]
    rcases observe_cases rule key (after (observeHit rule key) .new past) entry.2 entry.1
      with ⟨_, _, h⟩ | ⟨_, h⟩
    · simp [observeHit, h]
    · simpa [observeHit, h] using ih

/-- An alert is fired only once the cooldown of the last one is over. -/
theorem fired_after_cooldown {past : List (DateTime × StructuredEvent)}
    {entry : DateTime × StructuredEvent} {alert : Alert}
    (fires : (observeHit rule key (after (observeHit rule key) .new past) entry).2 =
      some alert) :
    ∀ last ∈ ((bucketAlerts rule key past).map Alert.firedAt).getLast?,
      last + rule.cooldown ≤ alert.firedAt := by
  intro last hlast
  rw [← lastFired_after] at hlast
  rcases observe_cases rule key (after (observeHit rule key) .new past) entry.2 entry.1
    with ⟨_, hcool, h⟩ | ⟨_, h⟩
  · rw [observeHit, h] at fires
    obtain rfl := Option.some.inj fires
    rw [WindowState.inCooldown, Option.mem_def.mp hlast] at hcool
    simp only [Option.any_some, decide_eq_false_iff_not, Int.not_lt] at hcool
    exact Int.add_le_of_le_sub_left hcool
  · rw [observeHit, h] at fires
    cases fires

theorem bucketAlerts_spaced (entries : List (DateTime × StructuredEvent)) :
    Spaced rule.cooldown ((bucketAlerts rule key entries).map Alert.firedAt) := by
  induction entries using List.reverseRecOn with
  | nil => exact List.IsChain.nil
  | append_singleton past entry ih =>
    rw [bucketAlerts_concat, List.map_append]
    cases hfire : (observeHit rule key (after (observeHit rule key) .new past) entry).2 with
    | none => simpa using ih
    | some alert =>
      refine List.isChain_append.mpr ⟨ih, List.isChain_singleton _, ?_⟩
      intro last hlast next hnext
      obtain rfl : alert.firedAt = next := by simpa using hnext
      exact fired_after_cooldown rule key hfire last hlast

theorem firedAt_of_bucket {entries : List (DateTime × StructuredEvent)} {alert : Alert}
    (mem : alert ∈ bucketAlerts rule key entries) :
    ∃ entry ∈ entries, alert.firedAt = entry.1 := by
  obtain ⟨past, entry, later, rfl, hfire⟩ :=
    (mem_outputs (observeHit rule key)).mp (List.reduceOption_mem_iff.mp mem)
  exact ⟨entry, by simp, (observe_alert hfire.symm).2.2⟩

end Bucket

/-- An alert of a pair is fired at the time of an event of the pair. -/
theorem firedAt_mem_hits (table : RuleTable) {calls : List Call} {alert : Alert}
    (mem : alert ∈ (Classifier.ofRules table.rules).alerts calls) {rule : Rule}
    (hrule : rule ∈ table.rules) (named : alert.rule = rule.name) :
    ∃ entry ∈ rule.hits alert.key calls, alert.firedAt = entry.1 := by
  have hfor : alert.isFor rule alert.key = true := decide_eq_true ⟨named, rfl⟩
  have hbucket := List.mem_filter.mpr ⟨mem, hfor⟩
  rw [Classifier.alerts_for_bucket table calls hrule] at hbucket
  exact firedAt_of_bucket rule alert.key hbucket

theorem firedTimes_eq (calls : List Call) {rule : Rule} (mem : rule ∈ builtinRules)
    (key : String) : firedTimes calls rule key =
      (bucketAlerts rule key (rule.hits key calls)).map Alert.firedAt := by
  have h := Classifier.alerts_for_bucket builtinTable calls mem key
  exact congrArg (List.map Alert.firedAt) h

/-- For any timestamps: the alerts of a pair are a cooldown apart, and a closed
interval of length `len` holds at most `len / cooldown + 1` of them. -/
theorem no_pager_storm (calls : List Call) (rule : Rule) (mem : rule ∈ builtinRules)
    (key : String) :
    Spaced rule.cooldown (firedTimes calls rule key) ∧
    ∀ lo len : Int, 0 ≤ len →
      (((firedTimes calls rule key).countP fun t => lo ≤ t ∧ t ≤ lo + len : Nat) : Int) ≤
        len / rule.cooldown + 1 := by
  have spaced : Spaced rule.cooldown (firedTimes calls rule key) := by
    rw [firedTimes_eq calls mem]
    exact bucketAlerts_spaced rule key _
  exact ⟨spaced, fun lo len hlen => spaced.count_le (builtinTable.cooldown_pos rule mem) lo hlen⟩

def storageFatal : StructuredEvent where
  level := .fatal
  source := "storage"
  chain := none
  rid := none
  step := none
  message := "postgres unreachable"
  raw := "[3:55:50 PM] [FATAL] [storage] postgres unreachable"

/-- Four fatal lines, the clock stepping back by 200 s before the third. -/
def steppedFatals : List Call :=
  [0, 300, 100, 600].map fun secs => ⟨.structured storageFatal, Duration.seconds secs⟩

theorem no_pager_storm_stepped :
    firedTimes steppedFatals fatalAny "any" = [0, 300, 600].map Duration.seconds ∧
    Spaced fatalAny.cooldown (firedTimes steppedFatals fatalAny "any") ∧
    (((firedTimes steppedFatals fatalAny "any").countP fun t =>
        0 ≤ t ∧ t ≤ 0 + Duration.seconds 600 : Nat) : Int) ≤
      Duration.seconds 600 / fatalAny.cooldown + 1 := by
  have storm := no_pager_storm steppedFatals fatalAny List.mem_cons_self "any"
  exact ⟨by decide, storm.1, storm.2 0 (Duration.seconds 600) (by decide)⟩

end Watchtower.Classify
