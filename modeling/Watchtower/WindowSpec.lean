import Watchtower.AlertSpacing

/-!
# The sliding-window specification

What the classifier is for, stated over the whole history: a rule fires on an
event if enough of the events so far fall into its window and no earlier alert
of the pair is still cooling down. `ingest` keeps one evicting log per bucket
instead; on timestamps that do not go back the two agree call by call.
-/

namespace Watchtower.Classify

open Chrono Parse Machine TimedLog

/-- The calls whose event the rule maps to the key, from `window` before `now` on. -/
def Rule.inWindow (rule : Rule) (key : String) (calls : List Call) (now : DateTime) : Nat :=
  calls.countP fun call => match call.event with
    | .unstructured _ => false
    | .structured e => rule.matchesKey e = some key ∧ now - rule.window ≤ call.now

/-- The alert owed to an event of the key, given how many events its window holds
and what was emitted before. -/
def owedAlert (rule : Rule) (key : String) (count : Nat) (earlier : List Alert)
    (e : StructuredEvent) (now : DateTime) : Option Alert :=
  if rule.threshold ≤ count ∧ ∀ alert ∈ earlier, alert.rule = rule.name →
      alert.key = key → ¬ now - alert.firedAt < rule.cooldown then
    some {
      severity := rule.severity
      rule := rule.name
      key := key
      count := count
      windowSecs := rule.window.numSeconds
      sampleEvent := some e
      firedAt := now }
  else none

def specAlert (past : List Call) (earlier : List Alert) (call : Call) (rule : Rule) :
    Option Alert :=
  match call.event with
  | .unstructured _ => none
  | .structured e => (rule.matchesKey e).bind fun key =>
    owedAlert rule key (rule.inWindow key (past ++ [call]) call.now) earlier e call.now

theorem owedAlert_eq_some {rule : Rule} {key : String} {count : Nat} {earlier : List Alert}
    {e : StructuredEvent} {now : DateTime} {alert : Alert}
    (h : owedAlert rule key count earlier e now = some alert) :
    rule.threshold ≤ count ∧ alert.rule = rule.name ∧ alert.key = key ∧
      alert.firedAt = now := by
  rw [owedAlert, Option.ite_none_right_eq_some] at h
  obtain ⟨⟨hfull, _⟩, hsome⟩ := h
  obtain rfl := Option.some.inj hsome
  exact ⟨hfull, rfl, rfl, rfl⟩

/-- A full window owes an alert unless an earlier one is cooling down. -/
theorem owedAlert_of_full {rule : Rule} {key : String} {count : Nat} {now : DateTime}
    (earlier : List Alert) (e : StructuredEvent) (full : rule.threshold ≤ count) :
    (∃ alert, owedAlert rule key count earlier e now = some alert) ∨
    ∃ alert ∈ earlier, alert.rule = rule.name ∧ alert.key = key ∧
      now - alert.firedAt < rule.cooldown := by
  by_cases h : ∀ alert ∈ earlier, alert.rule = rule.name → alert.key = key →
      ¬ now - alert.firedAt < rule.cooldown
  · exact Or.inl ⟨_, if_pos ⟨full, h⟩⟩
  · push Not at h
    exact Or.inr h

theorem mem_specAlert {rules : List Rule} {past : List Call} {earlier : List Alert}
    {call : Call} {alert : Alert} :
    alert ∈ rules.filterMap (specAlert past earlier call) ↔ ∃ rule ∈ rules, ∃ e key,
      call.event = .structured e ∧ rule.matchesKey e = some key ∧
      owedAlert rule key (rule.inWindow key (past ++ [call]) call.now) earlier e call.now =
        some alert := by
  rw [List.mem_filterMap]
  constructor
  · rintro ⟨rule, mem, h⟩
    rw [specAlert] at h
    cases event : call.event with
    | unstructured raw => simp [event] at h
    | structured e =>
      rw [event] at h
      obtain ⟨key, found, howed⟩ := Option.bind_eq_some_iff.mp h
      exact ⟨rule, mem, e, key, rfl, found, howed⟩
  · rintro ⟨rule, mem, e, key, event, found, howed⟩
    refine ⟨rule, mem, ?_⟩
    rw [specAlert, event]
    exact Option.bind_eq_some_iff.mpr ⟨key, found, howed⟩

/-- The alerts owed to each call of a run, in table order. -/
def specRuns (rules : List Rule) : List Call → List Alert → List Call → List (List Alert)
  | _, _, [] => []
  | past, earlier, call :: rest =>
    let fired := rules.filterMap (specAlert past earlier call)
    fired :: specRuns rules (past ++ [call]) (earlier ++ fired) rest

section Bucket
variable (rule : Rule) (key : String)

/-- The log of a bucket is the general evicting log over its hits. -/
theorem events_after (entries : List (DateTime × StructuredEvent)) :
    (after (observeHit rule key) .new entries).events =
      entries.foldl (slide Prod.fst rule.window) [] := by
  induction entries using List.reverseRecOn with
  | nil => rfl
  | append_singleton past entry ih =>
    rw [after_concat, observeHit, observe_events, ih, List.foldl_append]
    rfl

theorem inWindow_eq (calls : List Call) (now : DateTime) :
    rule.inWindow key calls now =
      ((rule.hits key calls).filter fun entry => now - rule.window ≤ entry.1).length := by
  rw [← List.countP_eq_length_filter, Rule.hits, List.countP_filterMap]
  apply List.countP_congr
  rintro ⟨event, time⟩ _
  cases event with
  | unstructured raw => simp [Rule.hit]
  | structured e =>
    by_cases hm : rule.matchesKey e = some key
    · simp [Rule.hit, hm]
    · simp [Rule.hit, hm]

theorem hits_sorted {calls : List Call} (sorted : Sorted Call.now calls) :
    Sorted Prod.fst (rule.hits key calls) := by
  refine List.Pairwise.filterMap _ ?_ sorted
  intro a b hab x hx y hy
  have hax := (hit_eq_some.mp hx).2.2
  have hby := (hit_eq_some.mp hy).2.2
  rw [← hax, ← hby]
  exact hab

/-- If the hits of a bucket are sorted, its new log holds what the window holds. -/
theorem length_observe_events {past : List Call} {call : Call} {e : StructuredEvent}
    (hwindow : 0 ≤ rule.window) (sorted : Sorted Prod.fst (rule.hits key (past ++ [call])))
    (hhit : rule.hit key call = some (call.now, e)) :
    (((after (observeHit rule key) .new (rule.hits key past)).dropBefore
        (call.now - rule.window)).pushBack call.now e).events.length =
      rule.inWindow key (past ++ [call]) call.now := by
  rw [hits_concat_of_hit hhit] at sorted
  obtain ⟨hpast, _, hnow⟩ := List.pairwise_append.mp sorted
  have hold := dropWhile_foldl_slide hwindow hpast fun entry hentry =>
    hnow entry hentry (call.now, e) (List.mem_singleton.mpr rfl)
  rw [inWindow_eq, hits_concat_of_hit hhit, List.filter_append, WindowState.pushBack_events,
    WindowState.dropBefore_events, events_after, hold]
  simp [hwindow]

/-- The last alert is the latest, so its cooldown is the only one to test. -/
theorem inCooldown_eq_false_iff (hcooldown : 0 ≤ rule.cooldown)
    (entries : List (DateTime × StructuredEvent)) (now : DateTime) :
    (after (observeHit rule key) .new entries).inCooldown rule now = false ↔
      ∀ alert ∈ bucketAlerts rule key entries, ¬ now - alert.firedAt < rule.cooldown := by
  rw [WindowState.inCooldown, lastFired_after]
  have spaced := bucketAlerts_spaced rule key entries
  constructor
  · intro h alert halert
    have hmem : alert.firedAt ∈ (bucketAlerts rule key entries).map Alert.firedAt :=
      List.mem_map_of_mem halert
    obtain ⟨last, hlast⟩ : ∃ last, last ∈
        ((bucketAlerts rule key entries).map Alert.firedAt).getLast? := by
      rw [List.getLast?_eq_some_getLast (List.ne_nil_of_mem hmem)]
      exact ⟨_, rfl⟩
    have hle := spaced.le_getLast hcooldown hmem hlast
    rw [Option.mem_def.mp hlast] at h
    simp only [Option.any_some, decide_eq_false_iff_not] at h
    exact fun hlt => h (lt_of_le_of_lt (sub_le_sub_left hle now) hlt)
  · intro h
    rw [Option.any_eq_false]
    intro last hlast
    obtain ⟨alert, halert, rfl⟩ := List.mem_map.mp (List.mem_of_getLast? hlast)
    simpa using h alert halert

end Bucket

/-- A hit answers as specified, given the history that led to the state. -/
theorem observe_eq_owed (table : RuleTable) {rule : Rule} (mem : rule ∈ table.rules)
    {key : String} {past : List Call} {call : Call}
    (sorted : Sorted Prod.fst (rule.hits key (past ++ [call]))) {e : StructuredEvent}
    (hhit : rule.hit key call = some (call.now, e)) :
    ((after (observeHit rule key) .new (rule.hits key past)).observe rule key e call.now).2 =
      owedAlert rule key (rule.inWindow key (past ++ [call]) call.now)
        ((Classifier.ofRules table.rules).alerts past) e call.now := by
  have hlen := length_observe_events rule key (Int.le_of_lt (table.window_pos rule mem))
    sorted hhit
  have hcool : (after (observeHit rule key) .new (rule.hits key past)).inCooldown rule
        call.now = false ↔
      ∀ alert ∈ (Classifier.ofRules table.rules).alerts past, alert.rule = rule.name →
        alert.key = key → ¬ call.now - alert.firedAt < rule.cooldown := by
    rw [inCooldown_eq_false_iff rule key (Int.le_of_lt (table.cooldown_pos rule mem)),
      ← Classifier.alerts_for_bucket table past mem key]
    simp [List.mem_filter, Alert.isFor]
  rcases observe_cases rule key (after (observeHit rule key) .new (rule.hits key past)) e
      call.now with ⟨hfull, hcold, h⟩ | ⟨hsilent, h⟩
  · rw [h, owedAlert, if_pos ⟨hlen ▸ hfull, hcool.mp hcold⟩, hlen]
  · rw [h, owedAlert, if_neg]
    rintro ⟨hfull, hcold⟩
    exact hsilent ⟨hlen.symm ▸ hfull, hcool.mpr hcold⟩

theorem step_eq_spec (table : RuleTable) {past : List Call} {call : Call}
    (sorted : Sorted Call.now (past ++ [call])) :
    ((after Classifier.step (.ofRules table.rules) past).step call).2 =
      table.rules.filterMap
        (specAlert past ((Classifier.ofRules table.rules).alerts past) call) := by
  rw [Classifier.step_alerts (Classifier.after_distinct table past), Classifier.after_rules]
  apply List.filterMap_congr
  intro rule mem
  rw [specAlert]
  cases event : call.event with
  | unstructured raw => rfl
  | structured e =>
    cases found : rule.matchesKey e with
    | none => simp [found]
    | some key =>
      simp only [found, Option.bind_some, Classifier.bucket_after table past mem key]
      exact observe_eq_owed table mem (hits_sorted rule key sorted)
        (hit_eq_some.mpr ⟨event, found, rfl⟩)

/-- The rest of a run answers as specified after any past. -/
theorem outputs_eq_spec (table : RuleTable) (past later : List Call)
    (sorted : Sorted Call.now (past ++ later)) :
    outputs Classifier.step (after Classifier.step (.ofRules table.rules) past) later =
      specRuns table.rules past ((Classifier.ofRules table.rules).alerts past) later := by
  induction later generalizing past with
  | nil => rfl
  | cons call rest ih =>
    have hcall : Sorted Call.now (past ++ [call]) := by
      refine sorted.sublist (List.Sublist.append_left ?_ past)
      exact List.singleton_sublist.mpr List.mem_cons_self
    have hstep := step_eq_spec table hcall
    have halerts : (Classifier.ofRules table.rules).alerts (past ++ [call]) =
        (Classifier.ofRules table.rules).alerts past ++
          ((after Classifier.step (.ofRules table.rules) past).step call).2 := by
      simp [Classifier.alerts, Classifier.alertRuns, outputs_concat]
    have hrest := ih (past ++ [call]) (by simpa using sorted)
    rw [after_concat, halerts, hstep] at hrest
    rw [outputs_cons, specRuns, hrest, hstep]

/-- Call by call, the classifier emits what the specification owes. -/
theorem ingest_refines_spec (calls : List Call) (sorted : Sorted Call.now calls) :
    Classifier.new.alertRuns calls = specRuns builtinRules [] [] calls :=
  outputs_eq_spec builtinTable [] calls sorted

def chainError : StructuredEvent where
  level := .error
  source := "database"
  chain := some "registration"
  rid := none
  step := none
  message := "connection refused"
  raw := "[15:55:50] [ERROR] [database] chain=registration connection refused"

/-- One error of the chain at each of the seconds. -/
def chainErrors (times : List Int) : List Call :=
  times.map fun secs => ⟨.structured chainError, Duration.seconds secs⟩

/-- The baseline alert comes with the first error, the burst alert with the fifth in
a minute and again, with an error evicted, once its cooldown is over. -/
theorem ingest_refines_spec_burst :
    (specRuns builtinRules [] [] (chainErrors [0, 30, 60, 60, 60, 60, 361])).map
        (List.map fun alert => (alert.rule, alert.count)) =
      [[("error_baseline_per_chain", 1)], [], [], [],
        [("error_burst_per_chain", 5)], [], []] ∧
    Classifier.new.alertRuns (chainErrors [0, 30, 60, 60, 60, 60, 361]) =
      specRuns builtinRules [] [] (chainErrors [0, 30, 60, 60, 60, 60, 361]) :=
  ⟨by decide, ingest_refines_spec _ (by decide)⟩

end Watchtower.Classify
