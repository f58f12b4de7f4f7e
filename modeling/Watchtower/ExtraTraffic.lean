import Watchtower.WindowSpec

/-!
# Extra traffic

Two runs are compared, the second with calls inserted anywhere. Calls that no bucket
of a pair sees change nothing for the pair, at any timestamps. Others move evictions,
alerts and cooldowns, so the runs do not stay in step; what they share is that a
window over more calls holds at least as much.
-/

namespace Watchtower.Classify

open Chrono Parse Machine TimedLog

/-- The calls whose event the rule maps to the key. -/
def Rule.callsFor (rule : Rule) (key : String) (calls : List Call) : List Call :=
  calls.filter fun call => (rule.hit key call).isSome

theorem hits_callsFor (rule : Rule) (key : String) (calls : List Call) :
    rule.hits key (rule.callsFor key calls) = rule.hits key calls := by
  rw [Rule.hits, Rule.callsFor, List.filterMap_filter]
  apply List.filterMap_congr
  intro call _
  cases h : rule.hit key call with
  | none => rfl
  | some entry => rfl

/-- The alerts of a pair are those of the run on its own calls, so runs that agree on
these agree on the alerts. -/
theorem buckets_do_not_interfere (calls : List Call) (rule : Rule) (mem : rule ∈ builtinRules)
    (key : String) :
    (Classifier.new.alerts calls).filter (Alert.isFor rule key) =
      (Classifier.new.alerts (rule.callsFor key calls)).filter (Alert.isFor rule key) ∧
    ∀ others, rule.callsFor key others = rule.callsFor key calls →
      (Classifier.new.alerts others).filter (Alert.isFor rule key) =
        (Classifier.new.alerts calls).filter (Alert.isFor rule key) := by
  have hbucket : ∀ calls, (Classifier.new.alerts calls).filter (Alert.isFor rule key) =
      bucketAlerts rule key (rule.hits key calls) := fun calls =>
    Classifier.alerts_for_bucket builtinTable calls mem key
  refine ⟨by rw [hbucket, hbucket, hits_callsFor], fun others agree => ?_⟩
  rw [hbucket, hbucket, ← hits_callsFor rule key others, agree, hits_callsFor]

/-- The fatal lines and the clock steps between the errors leave the burst alone. -/
theorem buckets_do_not_interfere_burst :
    ((Classifier.new.alerts (chainErrors [0, 10] ++ steppedFatals ++
        chainErrors [20, 30, 40])).filter
        (Alert.isFor errorBurstPerChain "registration")).map Alert.count = [5] ∧
    (Classifier.new.alerts (chainErrors [0, 10] ++ steppedFatals ++
        chainErrors [20, 30, 40])).filter (Alert.isFor errorBurstPerChain "registration") =
      (Classifier.new.alerts (chainErrors [0, 10, 20, 30, 40])).filter
        (Alert.isFor errorBurstPerChain "registration") := by
  have alone := buckets_do_not_interfere (chainErrors [0, 10, 20, 30, 40]) errorBurstPerChain
    (List.mem_cons_of_mem _ List.mem_cons_self) "registration"
  exact ⟨by decide, alone.2 _ rfl⟩

theorem inWindow_le_of_sublist (rule : Rule) (key : String) {calls more : List Call}
    (sub : calls.Sublist more) (now : DateTime) :
    rule.inWindow key calls now ≤ rule.inWindow key more now :=
  sub.countP_le

/-- An element of a list stands in every longer list, with no less before it. -/
theorem sublist_split {α : Type*} {past later more : List α} {a : α}
    (sub : (past ++ a :: later).Sublist more) :
    ∃ past' later', more = past' ++ a :: later' ∧ past.Sublist past' := by
  obtain ⟨front, back, rfl, hpast, htail⟩ := List.append_sublist_iff.mp sub
  obtain ⟨upto, rest, rfl, hmem, _⟩ := List.cons_sublist_iff.mp htail
  obtain ⟨before, between, rfl⟩ := List.append_of_mem hmem
  refine ⟨front ++ before, between ++ rest, by simp, ?_⟩
  exact hpast.trans (List.sublist_append_left front before)

/-- An event that fills its window is covered by an alert of its pair, its own or
one that is still cooling down. -/
theorem covered_of_full_window (table : RuleTable) {past later : List Call} {call : Call}
    (sorted : Sorted Call.now (past ++ [call])) {rule : Rule} (mem : rule ∈ table.rules)
    {e : StructuredEvent} (event : call.event = .structured e) {key : String}
    (found : rule.matchesKey e = some key)
    (full : rule.threshold ≤ rule.inWindow key (past ++ [call]) call.now) :
    ∃ alert ∈ (Classifier.ofRules table.rules).alerts (past ++ call :: later),
      alert.rule = rule.name ∧ alert.key = key ∧
      call.now - rule.cooldown < alert.firedAt ∧ alert.firedAt ≤ call.now := by
  rcases owedAlert_of_full ((Classifier.ofRules table.rules).alerts past) e full with
    ⟨alert, howed⟩ | ⟨alert, hmem, hrule, hkey, hcooling⟩
  · have hstep : alert ∈ ((after Classifier.step (.ofRules table.rules) past).step call).2 := by
      rw [step_eq_spec table sorted]
      exact mem_specAlert.mpr ⟨rule, mem, e, key, event, found, howed⟩
    obtain ⟨_, hrule, hkey, hfired⟩ := owedAlert_eq_some howed
    have hpos := table.cooldown_pos rule mem
    refine ⟨alert, mem_alerts.mpr ⟨past, call, later, rfl, hstep⟩, hrule, hkey, ?_, ?_⟩
    · rw [hfired]
      exact Int.sub_lt_self _ hpos
    · rw [hfired]
  · obtain ⟨entry, hentry, hfired⟩ := firedAt_mem_hits table hmem mem hrule
    obtain ⟨other, hother, hhit⟩ := List.mem_filterMap.mp hentry
    have hle := (List.pairwise_append.mp sorted).2.2 other hother call (by simp)
    rw [(hit_eq_some.mp hhit).2.2, ← hfired] at hle
    obtain ⟨before, first, after', rfl, hstep⟩ := mem_alerts.mp hmem
    refine ⟨alert, mem_alerts.mpr ⟨before, first, after' ++ call :: later, by simp, hstep⟩,
      hrule, hkey, ?_, hle⟩
    exact sub_lt_comm.mp hcooling

/-- For each alert of the smaller run, the larger run has one of the same pair that
is fired no later and less than a cooldown before. -/
theorem extra_traffic_keeps_alert (calls more : List Call) (sub : calls.Sublist more)
    (sorted : Sorted Call.now more) (alert : Alert)
    (mem : alert ∈ Classifier.new.alerts calls) :
    ∃ rule ∈ builtinRules, alert.rule = rule.name ∧
      ∃ kept ∈ Classifier.new.alerts more, kept.rule = rule.name ∧ kept.key = alert.key ∧
        alert.firedAt - rule.cooldown < kept.firedAt ∧ kept.firedAt ≤ alert.firedAt := by
  obtain ⟨past, call, later, rfl, hstep⟩ := mem_alerts.mp mem
  obtain ⟨past', later', rfl, hpast⟩ := sublist_split sub
  have hcall' : Sorted Call.now (past' ++ [call]) := by
    refine sorted.sublist (List.Sublist.append_left ?_ past')
    exact List.singleton_sublist.mpr List.mem_cons_self
  have hgrow : (past ++ [call]).Sublist (past' ++ [call]) :=
    hpast.append (List.Sublist.refl _)
  have hspec := step_eq_spec builtinTable (hcall'.sublist hgrow)
  obtain ⟨rule, hrule, e, key, event, found, howed⟩ :=
    mem_specAlert.mp (hspec ▸ hstep)
  obtain ⟨full, hname, hkey, hfired⟩ := owedAlert_eq_some howed
  have full' := full.trans (inWindow_le_of_sublist rule key hgrow call.now)
  obtain ⟨kept, hkept, hkrule, hkkey, hlo, hhi⟩ :=
    covered_of_full_window builtinTable hcall' hrule event found full'
  rw [hfired, hkey]
  exact ⟨rule, hrule, hname, kept, hkept, hkrule, hkkey, hlo, hhi⟩

/-- The burst alert of second 40 moves to second 35 when a sixth error comes there. -/
theorem extra_traffic_keeps_alert_burst :
    ∃ alert ∈ Classifier.new.alerts (chainErrors [0, 10, 20, 30, 40]),
      alert.firedAt = Duration.seconds 40 ∧
      ∃ rule ∈ builtinRules, alert.rule = rule.name ∧
        ∃ kept ∈ Classifier.new.alerts (chainErrors [0, 10, 20, 30, 35, 40]),
          kept.rule = rule.name ∧ kept.key = alert.key ∧
          alert.firedAt - rule.cooldown < kept.firedAt ∧ kept.firedAt ≤ alert.firedAt := by
  have hfired : (Classifier.new.alerts (chainErrors [0, 10, 20, 30, 40])).getLast? = some {
      severity := .page
      rule := "error_burst_per_chain"
      key := "registration"
      count := 5
      windowSecs := 60
      sampleEvent := some chainError
      firedAt := Duration.seconds 40 } := by decide
  have mem := List.mem_of_getLast? hfired
  refine ⟨_, mem, rfl, ?_⟩
  exact extra_traffic_keeps_alert (chainErrors [0, 10, 20, 30, 40])
    (chainErrors [0, 10, 20, 30, 35, 40]) (List.Sublist.map _ (by decide)) (by decide) _ mem

end Watchtower.Classify
