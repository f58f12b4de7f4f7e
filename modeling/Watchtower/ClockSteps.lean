import Watchtower.WindowSpec

/-!
# Clocks that step backwards

The classifier reads the wall clock at each call. Eviction stops at the first
recent entry and the cooldown test is a signed difference, so both rely on the
readings a bucket has seen. What an alert says is true as long as no bucket sees
the clock go back; nothing is asked of the readings of other buckets.
-/

namespace Watchtower.Classify

open Chrono Parse Machine TimedLog

/-- The events of the pair whose timestamp lies in a closed interval. -/
def Rule.between (rule : Rule) (key : String) (calls : List Call) (lo hi : DateTime) : Nat :=
  (rule.hits key calls).countP fun entry => lo ≤ entry.1 ∧ entry.1 ≤ hi

/-- What one call does for a pair agrees with the events ingested so far. -/
structure TruthfulAt (rule : Rule) (key : String) (past : List Call) (call : Call) : Prop where
  counted : ∀ alert ∈ ((after Classifier.step .new past).step call).2,
    alert.isFor rule key = true → alert.count =
      rule.between key (past ++ [call]) (alert.firedAt - rule.window) alert.firedAt
  suppressed : (rule.hit key call).isSome →
    rule.threshold ≤ rule.between key (past ++ [call]) (call.now - rule.window) call.now →
    (∀ alert ∈ ((after Classifier.step .new past).step call).2,
      alert.isFor rule key = false) →
    ∃ alert ∈ Classifier.new.alerts past, alert.isFor rule key = true ∧
      call.now - rule.cooldown < alert.firedAt ∧ alert.firedAt ≤ call.now

/-- No event of the pair is read at an earlier time than the one before it. -/
def SteadyClock (rule : Rule) (key : String) (calls : List Call) : Prop :=
  Sorted Prod.fst (rule.hits key calls)

theorem owedAlert_count {rule : Rule} {key : String} {count : Nat} {earlier : List Alert}
    {e : StructuredEvent} {now : DateTime} {alert : Alert}
    (h : owedAlert rule key count earlier e now = some alert) : alert.count = count := by
  rw [owedAlert, Option.ite_none_right_eq_some] at h
  obtain rfl := Option.some.inj h.2
  rfl

section Pair
variable {rule : Rule} {key : String}

theorem SteadyClock.past {past later : List Call}
    (steady : SteadyClock rule key (past ++ later)) : SteadyClock rule key past := by
  rw [SteadyClock, hits_append] at steady
  exact (List.pairwise_append.mp steady).1

theorem SteadyClock.le_now {past : List Call} {call : Call}
    (steady : SteadyClock rule key (past ++ [call])) {last : DateTime × StructuredEvent}
    (hhit : rule.hit key call = some last) {entry : DateTime × StructuredEvent}
    (mem : entry ∈ rule.hits key past) : entry.1 ≤ call.now := by
  rw [SteadyClock, hits_concat_of_hit hhit] at steady
  have hle := (List.pairwise_append.mp steady).2.2 entry mem last (by simp)
  exact (hit_eq_some.mp hhit).2.2 ▸ hle

/-- With nothing from the future, the closed interval holds what the window holds. -/
theorem between_eq_inWindow {past : List Call} {call : Call}
    (steady : SteadyClock rule key (past ++ [call])) {last : DateTime × StructuredEvent}
    (hhit : rule.hit key call = some last) :
    rule.between key (past ++ [call]) (call.now - rule.window) call.now =
      rule.inWindow key (past ++ [call]) call.now := by
  rw [inWindow_eq, Rule.between, ← List.countP_eq_length_filter]
  apply List.countP_congr
  intro entry mem
  have hle : entry.1 ≤ call.now := by
    rw [hits_concat_of_hit hhit] at mem
    rcases List.mem_append.mp mem with mem | mem
    · exact steady.le_now hhit mem
    · rw [List.mem_singleton.mp mem, (hit_eq_some.mp hhit).2.2]
  simp [hle]

/-- The alerts a hit emits for its pair are the one it is owed. -/
theorem step_filter_eq_owed (mem : rule ∈ builtinRules) {past : List Call} {call : Call}
    (steady : SteadyClock rule key (past ++ [call])) {e : StructuredEvent}
    (hhit : rule.hit key call = some (call.now, e)) :
    ((after Classifier.step .new past).step call).2.filter (Alert.isFor rule key) =
      (owedAlert rule key (rule.inWindow key (past ++ [call]) call.now)
        (Classifier.new.alerts past) e call.now).toList := by
  have hfilter := Classifier.after_step_alertsFor builtinTable past call mem key
  rw [hhit] at hfilter
  have howed := observe_eq_owed builtinTable mem steady hhit
  exact hfilter.trans (congrArg Option.toList howed)

theorem truthfulAt_of_hit (mem : rule ∈ builtinRules) {past : List Call} {call : Call}
    (steady : SteadyClock rule key (past ++ [call])) {e : StructuredEvent}
    (hhit : rule.hit key call = some (call.now, e)) : TruthfulAt rule key past call := by
  have hfilter := step_filter_eq_owed mem steady hhit
  have hcount := between_eq_inWindow steady hhit
  constructor
  · intro alert halert hfor
    have howed := List.mem_filter.mpr ⟨halert, hfor⟩
    rw [hfilter, Option.mem_toList] at howed
    rw [(owedAlert_eq_some howed).2.2.2, hcount]
    exact owedAlert_count howed
  · intro _ hfull hsilent
    rw [hcount] at hfull
    rcases owedAlert_of_full (Classifier.new.alerts past) e hfull with
      ⟨alert, howed⟩ | ⟨alert, halert, hrule, hkey, hcooling⟩
    · have hfired : alert ∈ ((after Classifier.step .new past).step call).2.filter
          (Alert.isFor rule key) := by
        rw [hfilter, howed]
        exact List.mem_singleton.mpr rfl
      obtain ⟨hmem, hfor⟩ := List.mem_filter.mp hfired
      rw [hsilent alert hmem] at hfor
      cases hfor
    · obtain ⟨entry, hentry, hat⟩ := firedAt_mem_hits builtinTable halert mem hrule
      rw [hkey] at hentry
      have hle := steady.le_now hhit hentry
      rw [← hat] at hle
      exact ⟨alert, halert, decide_eq_true ⟨hrule, hkey⟩, sub_lt_comm.mp hcooling, hle⟩

/-- A call that is no event of the pair emits nothing for it. -/
theorem truthfulAt_of_miss (mem : rule ∈ builtinRules) {past : List Call} {call : Call}
    (hmiss : rule.hit key call = none) : TruthfulAt rule key past call := by
  have hnone := Classifier.after_step_alertsFor builtinTable past call mem key
  rw [hmiss] at hnone
  constructor
  · intro alert halert hfor
    exact absurd hfor (List.filter_eq_nil_iff.mp hnone alert halert)
  · intro hsome
    rw [hmiss] at hsome
    cases hsome

end Pair

/-- In a run that reads no event of the pair before an earlier one, every call tells
the truth about the pair. -/
theorem truthful_of_steady_clock (calls : List Call) (rule : Rule)
    (mem : rule ∈ builtinRules) (key : String) (steady : SteadyClock rule key calls) :
    ∀ past call later, calls = past ++ call :: later → TruthfulAt rule key past call := by
  rintro past call later rfl
  rw [List.append_cons] at steady
  have hcall := steady.past
  cases hhit : rule.hit key call with
  | none => exact truthfulAt_of_miss mem hhit
  | some entry =>
    have hnow := (hit_eq_some.mp hhit).2.2
    rw [← Prod.mk.eta (p := entry), ← hnow] at hhit
    exact truthfulAt_of_hit mem hcall hhit

/-- Only the clock of the pair counts: the error is read before the fatal lines. -/
theorem truthful_of_steady_clock_fatal :
    TruthfulAt fatalAny "any" (steppedFatals.take 1 ++ chainErrors [-1000])
      ⟨.structured storageFatal, Duration.seconds 300⟩ :=
  truthful_of_steady_clock
    (steppedFatals.take 1 ++ chainErrors [-1000] ++
      [⟨.structured storageFatal, Duration.seconds 300⟩])
    fatalAny List.mem_cons_self "any" (by unfold SteadyClock; decide) _ _ [] rfl

/-- Around a step back by 1000 s the burst alert counts a stale error that stands behind
a newer one, and a fatal line is silenced by an alert from the future. -/
theorem clock_step_breaks_truth :
    (¬ TruthfulAt errorBurstPerChain "registration" (chainErrors [1000, 0, 1000, 1000])
      ⟨.structured chainError, Duration.seconds 1000⟩) ∧
    ¬ TruthfulAt fatalAny "any" [⟨.structured storageFatal, Duration.seconds 1000⟩]
      ⟨.structured storageFatal, Duration.seconds 0⟩ := by
  constructor
  · intro truthful
    have hwrong : ∃ alert ∈
        ((after Classifier.step .new (chainErrors [1000, 0, 1000, 1000])).step
          ⟨.structured chainError, Duration.seconds 1000⟩).2,
        alert.isFor errorBurstPerChain "registration" = true ∧ alert.count ≠
          errorBurstPerChain.between "registration" (chainErrors [1000, 0, 1000, 1000, 1000])
            (alert.firedAt - errorBurstPerChain.window) alert.firedAt := by decide
    obtain ⟨alert, halert, hfor, hne⟩ := hwrong
    exact hne (truthful.counted alert halert hfor)
  · intro truthful
    obtain ⟨alert, halert, _, _, hle⟩ :=
      truthful.suppressed (by decide) (by decide) (by decide)
    have hfuture : ∀ alert ∈ Classifier.new.alerts
        [⟨.structured storageFatal, Duration.seconds 1000⟩],
        ¬ alert.firedAt ≤ Duration.seconds 0 := by decide
    exact hfuture alert halert hle

end Watchtower.Classify
