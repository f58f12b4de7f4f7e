import Mathlib.Data.List.ReduceOption
import Watchtower.Classify

/-!
# Every bucket runs on its own

All buckets live in one map and one event touches up to three of them, but the
rule names are distinct, so what a bucket goes through is decided by the calls
whose event the rule's matcher maps to the bucket's key. A run of the classifier
is followed here by one run of `observe` for each bucket.
-/

namespace Watchtower.Classify

open Chrono Parse Machine

/-- What a call brings to a bucket: nothing unless the matcher gives its key. -/
def Rule.hit (rule : Rule) (key : String) (call : Call) :
    Option (DateTime × StructuredEvent) :=
  match call.event with
  | .unstructured _ => none
  | .structured e => if rule.matchesKey e = some key then some (call.now, e) else none

def Rule.hits (rule : Rule) (key : String) (calls : List Call) :
    List (DateTime × StructuredEvent) :=
  calls.filterMap (rule.hit key)

def Alert.isFor (rule : Rule) (key : String) (alert : Alert) : Bool :=
  alert.rule = rule.name ∧ alert.key = key

/-- Among the alerts of distinctly named rules, those under one name are the one
alert its rule gave. -/
theorem filter_isFor {rules : List Rule} (distinct : (rules.map Rule.name).Nodup)
    {given : Rule → Option Alert}
    (named : ∀ rule ∈ rules, ∀ alert, given rule = some alert → alert.rule = rule.name)
    {rule : Rule} (mem : rule ∈ rules) (key : String) :
    (rules.filterMap given).filter (Alert.isFor rule key) =
      (given rule).toList.filter fun alert => alert.key = key := by
  induction rules with
  | nil => cases mem
  | cons first rest ih =>
    simp only [List.map_cons, List.nodup_cons] at distinct
    have hsplit : (first :: rest).filterMap given =
        (given first).toList ++ rest.filterMap given := by
      cases h : given first with
      | none => simp [h]
      | some alert => simp [h]
    rw [hsplit, List.filter_append]
    rcases List.mem_cons.mp mem with rfl | mem
    · have hfirst : (given rule).toList.filter (Alert.isFor rule key) =
          (given rule).toList.filter fun alert => alert.key = key := by
        apply List.filter_congr
        intro alert halert
        have hname := named rule List.mem_cons_self alert (Option.mem_toList.mp halert)
        simp [Alert.isFor, hname]
      have hrest : (rest.filterMap given).filter (Alert.isFor rule key) = [] := by
        rw [List.filter_eq_nil_iff]
        intro alert halert hfor
        obtain ⟨other, hother, hgiven⟩ := List.mem_filterMap.mp halert
        have hname := named other (List.mem_cons_of_mem _ hother) alert hgiven
        simp only [Alert.isFor, decide_eq_true_eq] at hfor
        exact distinct.1 (hfor.1.symm.trans hname ▸ List.mem_map_of_mem hother)
      rw [hfirst, hrest, List.append_nil]
    · have hfirst : (given first).toList.filter (Alert.isFor rule key) = [] := by
        rw [List.filter_eq_nil_iff]
        intro alert halert hfor
        have hname := named first List.mem_cons_self alert (Option.mem_toList.mp halert)
        simp only [Alert.isFor, decide_eq_true_eq] at hfor
        exact distinct.1 (hname.symm.trans hfor.1 ▸ List.mem_map_of_mem mem)
      rw [hfirst, List.nil_append]
      exact ih distinct.2 (fun rule h => named rule (List.mem_cons_of_mem _ h)) mem

/-- `observe` as a machine that reads the hits of its bucket. -/
def observeHit (rule : Rule) (key : String) (state : WindowState)
    (entry : DateTime × StructuredEvent) : WindowState × Option Alert :=
  state.observe rule key entry.2 entry.1

/-- The alerts a bucket emits over its hits. -/
def bucketAlerts (rule : Rule) (key : String) (entries : List (DateTime × StructuredEvent)) :
    List Alert :=
  (outputs (observeHit rule key) .new entries).reduceOption

theorem bucketAlerts_concat (rule : Rule) (key : String)
    (past : List (DateTime × StructuredEvent)) (entry : DateTime × StructuredEvent) :
    bucketAlerts rule key (past ++ [entry]) = bucketAlerts rule key past ++
      (observeHit rule key (after (observeHit rule key) .new past) entry).2.toList := by
  rw [bucketAlerts, outputs_concat, List.reduceOption_append, List.reduceOption_singleton]
  rfl

theorem hits_append (rule : Rule) (key : String) (xs ys : List Call) :
    rule.hits key (xs ++ ys) = rule.hits key xs ++ rule.hits key ys :=
  List.filterMap_append

theorem hit_eq_some {rule : Rule} {key : String} {call : Call}
    {entry : DateTime × StructuredEvent} :
    rule.hit key call = some entry ↔
      call.event = .structured entry.2 ∧ rule.matchesKey entry.2 = some key ∧
        call.now = entry.1 := by
  obtain ⟨event, now⟩ := call
  obtain ⟨time, e⟩ := entry
  cases event with
  | unstructured raw => simp [Rule.hit]
  | structured s =>
    simp only [Rule.hit, Option.ite_none_right_eq_some, Option.some.injEq, Prod.mk.injEq,
      LogEvent.structured.injEq]
    constructor
    · rintro ⟨hm, rfl, rfl⟩
      exact ⟨rfl, hm, rfl⟩
    · rintro ⟨rfl, hm, rfl⟩
      exact ⟨hm, rfl, rfl⟩

theorem hits_concat_of_hit {rule : Rule} {key : String} {call : Call}
    {entry : DateTime × StructuredEvent} (hhit : rule.hit key call = some entry)
    (past : List Call) : rule.hits key (past ++ [call]) = rule.hits key past ++ [entry] := by
  simp [Rule.hits, hhit]

/-- What `observe` can do: evict and record, then fire or stay silent. -/
theorem observe_cases (rule : Rule) (key : String) (state : WindowState)
    (e : StructuredEvent) (now : DateTime) :
    let kept := (state.dropBefore (now - rule.window)).pushBack now e
    (rule.threshold ≤ kept.events.length ∧ state.inCooldown rule now = false ∧
      state.observe rule key e now = ({ kept with lastFired := some now }, some {
        severity := rule.severity, rule := rule.name, key := key
        count := kept.events.length, windowSecs := rule.window.numSeconds
        sampleEvent := some e, firedAt := now })) ∨
    (¬ (rule.threshold ≤ kept.events.length ∧ state.inCooldown rule now = false) ∧
      state.observe rule key e now = (kept, none)) := by
  dsimp only
  by_cases h : rule.threshold ≤
      ((state.dropBefore (now - rule.window)).pushBack now e).events.length ∧
      state.inCooldown rule now = false
  · refine Or.inl ⟨h.1, h.2, ?_⟩
    have hlast : (((state.dropBefore (now - rule.window)).pushBack now e).events.getLast?).map
        Prod.snd = some e := by simp [WindowState.pushBack]
    simp only [WindowState.observe, hlast]
    exact if_pos h
  · exact Or.inr ⟨h, if_neg h⟩

theorem observe_events (rule : Rule) (key : String) (state : WindowState)
    (e : StructuredEvent) (now : DateTime) :
    (state.observe rule key e now).1.events =
      (state.events.dropWhile fun entry => entry.1 < now - rule.window) ++ [(now, e)] := by
  rcases observe_cases rule key state e now with ⟨_, _, h⟩ | ⟨_, h⟩
  · rw [h]; rfl
  · rw [h]; rfl

/-- The alert of an observation, as far as it depends on more than the rule. -/
theorem observe_alert {rule : Rule} {key : String} {state : WindowState}
    {e : StructuredEvent} {now : DateTime} {alert : Alert}
    (h : (state.observe rule key e now).2 = some alert) :
    alert.rule = rule.name ∧ alert.key = key ∧ alert.firedAt = now := by
  rcases observe_cases rule key state e now with ⟨_, _, ho⟩ | ⟨_, ho⟩
  · rw [ho] at h
    obtain rfl := Option.some.inj h
    exact ⟨rfl, rfl, rfl⟩
  · rw [ho] at h
    cases h

namespace Classifier

@[simp] theorem bucket_ofRules (rules : List Rule) (id : String × String) :
    (ofRules rules).bucket id = .new := rfl

@[simp] theorem bucket_insert_same (c : Classifier) (id : String × String)
    (state : WindowState) : (c.insert id state).bucket id = state := by
  simp [bucket, insert]

theorem bucket_insert_other (c : Classifier) {id other : String × String}
    (state : WindowState) (h : other ≠ id) :
    (c.insert id state).bucket other = c.bucket other := by
  simp [bucket, insert, h]

section RuleLoop
variable (e : StructuredEvent) (now : DateTime)

theorem applyRule_rules (acc : Classifier × List Alert) (rule : Rule) :
    (applyRule e now acc rule).1.rules = acc.1.rules := by
  rw [applyRule]
  split <;> rfl

theorem applyRule_bucket_other (acc : Classifier × List Alert) (rule : Rule)
    {id : String × String} (h : id.1 ≠ rule.name) :
    (applyRule e now acc rule).1.bucket id = acc.1.bucket id := by
  rw [applyRule]
  split
  · rfl
  · exact bucket_insert_other _ _ fun heq => h (congrArg Prod.fst heq)

theorem foldl_rules (rules : List Rule) (acc : Classifier × List Alert) :
    (rules.foldl (applyRule e now) acc).1.rules = acc.1.rules := by
  induction rules generalizing acc with
  | nil => rfl
  | cons rule rest ih => rw [List.foldl_cons, ih, applyRule_rules]

theorem foldl_bucket_other (rules : List Rule) (acc : Classifier × List Alert)
    {id : String × String} (h : id.1 ∉ rules.map Rule.name) :
    (rules.foldl (applyRule e now) acc).1.bucket id = acc.1.bucket id := by
  induction rules generalizing acc with
  | nil => rfl
  | cons rule rest ih =>
    simp only [List.map_cons, List.mem_cons, not_or] at h
    rw [List.foldl_cons, ih _ h.2, applyRule_bucket_other e now acc rule h.1]

/-- The loop gives a matched bucket exactly one observation of its old state. -/
theorem foldl_bucket (rules : List Rule) (distinct : (rules.map Rule.name).Nodup)
    (acc : Classifier × List Alert) {rule : Rule} (mem : rule ∈ rules) (key : String) :
    (rules.foldl (applyRule e now) acc).1.bucket (rule.name, key) =
      if rule.matchesKey e = some key
      then ((acc.1.bucket (rule.name, key)).observe rule key e now).1
      else acc.1.bucket (rule.name, key) := by
  induction rules generalizing acc with
  | nil => cases mem
  | cons first rest ih =>
    simp only [List.map_cons, List.nodup_cons] at distinct
    rw [List.foldl_cons]
    rcases List.mem_cons.mp mem with rfl | mem
    · rw [foldl_bucket_other e now rest _ distinct.1, applyRule]
      split
      · rename_i hnone
        simp [hnone]
      · rename_i found hfound
        by_cases hk : found = key
        · subst hk
          simp [hfound]
        · have hne : (rule.name, key) ≠ (rule.name, found) := by
            intro h
            exact hk (congrArg Prod.snd h).symm
          rw [bucket_insert_other _ _ hne, hfound, if_neg (by simpa using hk)]
    · have hname : rule.name ≠ first.name := by
        intro h
        exact distinct.1 (h ▸ List.mem_map_of_mem mem)
      rw [ih distinct.2 _ mem, applyRule_bucket_other e now acc first hname]

/-- The alerts of the loop, in table order, all judged on the old states. -/
theorem foldl_alerts (rules : List Rule) (distinct : (rules.map Rule.name).Nodup)
    (acc : Classifier × List Alert) :
    (rules.foldl (applyRule e now) acc).2 = acc.2 ++ rules.filterMap fun rule =>
      (rule.matchesKey e).bind fun key =>
        ((acc.1.bucket (rule.name, key)).observe rule key e now).2 := by
  induction rules generalizing acc with
  | nil => simp
  | cons first rest ih =>
    simp only [List.map_cons, List.nodup_cons] at distinct
    have hrest : (rest.filterMap fun rule => (rule.matchesKey e).bind fun key =>
          (((applyRule e now acc first).1.bucket (rule.name, key)).observe rule key e now).2) =
        rest.filterMap fun rule => (rule.matchesKey e).bind fun key =>
          ((acc.1.bucket (rule.name, key)).observe rule key e now).2 := by
      apply List.filterMap_congr
      intro rule mem
      have hname : rule.name ≠ first.name := by
        intro h
        exact distinct.1 (h ▸ List.mem_map_of_mem mem)
      cases rule.matchesKey e with
      | none => rfl
      | some key =>
        have hsame : (applyRule e now acc first).1.bucket (rule.name, key) =
            acc.1.bucket (rule.name, key) := applyRule_bucket_other e now acc first hname
        rw [Option.bind_some, Option.bind_some, hsame]
    rw [List.foldl_cons, ih distinct.2, hrest, applyRule]
    cases hfirst : first.matchesKey e with
    | none => simp [hfirst]
    | some key =>
      cases hfire : ((acc.1.bucket (first.name, key)).observe first key e now).2 with
      | none => simp [hfirst, hfire]
      | some alert => simp [hfirst, hfire]

end RuleLoop

section Step
variable {c : Classifier} (distinct : (c.rules.map Rule.name).Nodup) (call : Call)

theorem step_rules : (c.step call).1.rules = c.rules := by
  obtain ⟨event, now⟩ := call
  cases event with
  | unstructured raw => rfl
  | structured e => exact foldl_rules e now c.rules (c, [])

include distinct

theorem step_bucket {rule : Rule} (mem : rule ∈ c.rules) (key : String) :
    (c.step call).1.bucket (rule.name, key) =
      match rule.hit key call with
      | none => c.bucket (rule.name, key)
      | some entry => (observeHit rule key (c.bucket (rule.name, key)) entry).1 := by
  obtain ⟨event, now⟩ := call
  cases event with
  | unstructured raw => rfl
  | structured e =>
    have h := foldl_bucket e now c.rules distinct (c, []) mem key
    by_cases hm : rule.matchesKey e = some key
    · simpa [step, ingest, Rule.hit, observeHit, hm] using h
    · simpa [step, ingest, Rule.hit, hm] using h

theorem step_alerts : (c.step call).2 = c.rules.filterMap fun rule =>
    match call.event with
    | .unstructured _ => none
    | .structured e => (rule.matchesKey e).bind fun key =>
        ((c.bucket (rule.name, key)).observe rule key e call.now).2 := by
  obtain ⟨event, now⟩ := call
  cases event with
  | unstructured raw => simp [step, ingest]
  | structured e => simpa [step, ingest] using foldl_alerts e now c.rules distinct (c, [])

/-- An emitted alert comes from one rule of the table and one hit of its bucket. -/
theorem mem_step_alerts {alert : Alert} :
    alert ∈ (c.step call).2 ↔ ∃ rule ∈ c.rules, ∃ key entry,
      rule.hit key call = some entry ∧
      (observeHit rule key (c.bucket (rule.name, key)) entry).2 = some alert := by
  rw [step_alerts distinct call, List.mem_filterMap]
  obtain ⟨event, now⟩ := call
  cases event with
  | unstructured raw => simp [Rule.hit]
  | structured e =>
    constructor
    · rintro ⟨rule, mem, h⟩
      obtain ⟨key, hkey, h⟩ := Option.bind_eq_some_iff.mp h
      exact ⟨rule, mem, key, (now, e), hit_eq_some.mpr ⟨rfl, hkey, rfl⟩, h⟩
    · rintro ⟨rule, mem, key, entry, hhit, h⟩
      obtain ⟨hevent, hkey, hnow⟩ := hit_eq_some.mp hhit
      obtain rfl := LogEvent.structured.inj hevent
      refine ⟨rule, mem, Option.bind_eq_some_iff.mpr ⟨key, hkey, ?_⟩⟩
      rw [observeHit, ← hnow] at h
      exact h

/-- Names are distinct, so only its own rule can emit an alert of a bucket. -/
theorem step_alertsFor {rule : Rule} (mem : rule ∈ c.rules) (key : String) :
    (c.step call).2.filter (Alert.isFor rule key) =
      match rule.hit key call with
      | none => []
      | some entry => (observeHit rule key (c.bucket (rule.name, key)) entry).2.toList := by
  rw [step_alerts distinct call]
  rw [filter_isFor distinct _ mem]
  · obtain ⟨event, now⟩ := call
    cases event with
    | unstructured raw => rfl
    | structured e =>
      cases hfound : rule.matchesKey e with
      | none => simp [Rule.hit, hfound]
      | some found =>
        simp only [Option.bind_some, Rule.hit, hfound, Option.some.injEq]
        by_cases hk : found = key
        · subst hk
          rw [if_pos rfl]
          apply List.filter_eq_self.mpr
          intro alert halert
          have := (observe_alert (Option.mem_toList.mp halert)).2.1
          simpa using this
        · rw [if_neg hk, List.filter_eq_nil_iff]
          intro alert halert hkey
          have := (observe_alert (Option.mem_toList.mp halert)).2.1
          exact hk (this.symm.trans (by simpa using hkey))
  · intro rule _ alert h
    obtain ⟨event, now⟩ := call
    cases event with
    | unstructured raw => cases h
    | structured e =>
      obtain ⟨key, _, h⟩ := Option.bind_eq_some_iff.mp h
      exact (observe_alert h).1

end Step

section Run
variable (table : RuleTable)

theorem after_rules (c : Classifier) (calls : List Call) :
    (after step c calls).rules = c.rules :=
  after_invariant step (P := fun d => d.rules = c.rules) rfl
    (fun _ call h => (step_rules call).trans h) calls

theorem after_distinct (calls : List Call) :
    ((after step (ofRules table.rules) calls).rules.map Rule.name).Nodup := by
  rw [after_rules]
  exact table.distinct

theorem after_mem_rules {rule : Rule} (mem : rule ∈ table.rules) (calls : List Call) :
    rule ∈ (after step (ofRules table.rules) calls).rules := by
  rw [after_rules]
  exact mem

/-- The state of a bucket after a run is the state after its hits alone. -/
theorem bucket_after (calls : List Call) {rule : Rule} (mem : rule ∈ table.rules)
    (key : String) :
    (after step (ofRules table.rules) calls).bucket (rule.name, key) =
      after (observeHit rule key) .new (rule.hits key calls) := by
  induction calls using List.reverseRecOn with
  | nil => rfl
  | append_singleton past call ih =>
    have hstep := step_bucket (after_distinct table past) call
      (after_mem_rules table mem past) key
    rw [after_concat, hstep, ih, hits_append]
    cases hhit : rule.hit key call with
    | none => simp [Rule.hits, hhit]
    | some entry => simp [Rule.hits, hhit, after_append]

/-- What a call after a run emits for a bucket is decided by the hits of the bucket. -/
theorem after_step_alertsFor (past : List Call) (call : Call) {rule : Rule}
    (mem : rule ∈ table.rules) (key : String) :
    ((after step (ofRules table.rules) past).step call).2.filter (Alert.isFor rule key) =
      match rule.hit key call with
      | none => []
      | some entry => (observeHit rule key
          (after (observeHit rule key) .new (rule.hits key past)) entry).2.toList := by
  have hstep := step_alertsFor (after_distinct table past) call
    (after_mem_rules table mem past) key
  rw [bucket_after table past mem key] at hstep
  exact hstep

/-- The alerts of a run for one bucket are those of its hits alone. -/
theorem alerts_for_bucket (calls : List Call) {rule : Rule} (mem : rule ∈ table.rules)
    (key : String) :
    ((ofRules table.rules).alerts calls).filter (Alert.isFor rule key) =
      bucketAlerts rule key (rule.hits key calls) := by
  induction calls using List.reverseRecOn with
  | nil => rfl
  | append_singleton past call ih =>
    have hnew := after_step_alertsFor table past call mem key
    rw [alerts, alertRuns, outputs_concat, List.flatten_append, List.filter_append,
      ← alertRuns, ← alerts, ih, List.flatten_singleton, hnew]
    cases hhit : rule.hit key call with
    | none => simp [Rule.hits, hhit]
    | some entry => rw [hits_concat_of_hit hhit, bucketAlerts_concat]

end Run

end Classifier

/-- An alert of a run comes from one call of it. -/
theorem mem_alerts {c : Classifier} {calls : List Call} {alert : Alert} :
    alert ∈ c.alerts calls ↔ ∃ past call later, calls = past ++ call :: later ∧
      alert ∈ ((after Classifier.step c past).step call).2 := by
  rw [Classifier.alerts, List.mem_flatten]
  constructor
  · rintro ⟨fired, hfired, hmem⟩
    obtain ⟨past, call, later, hcalls, rfl⟩ := (mem_outputs Classifier.step).mp hfired
    exact ⟨past, call, later, hcalls, hmem⟩
  · rintro ⟨past, call, later, hcalls, hmem⟩
    exact ⟨_, (mem_outputs Classifier.step).mpr ⟨past, call, later, hcalls, rfl⟩, hmem⟩

/-- Whatever the timestamps, every alert carries the name of a rule of the table. -/
theorem rule_of_mem_alerts (table : RuleTable) {calls : List Call} {alert : Alert}
    (mem : alert ∈ (Classifier.ofRules table.rules).alerts calls) :
    ∃ rule ∈ table.rules, alert.rule = rule.name := by
  obtain ⟨past, call, _, _, hstep⟩ := mem_alerts.mp mem
  obtain ⟨rule, hrule, _, _, _, hfire⟩ :=
    (Classifier.mem_step_alerts (Classifier.after_distinct table past) call).mp hstep
  rw [Classifier.after_rules] at hrule
  exact ⟨rule, hrule, (observe_alert hfire).1⟩

end Watchtower.Classify
