import Watchtower.AlertSpacing
import Watchtower.Fields

/-!
# Alerts of parsed lines

What an alert is made of when the classifier is fed with the lines of a journal: a rule
of the table, the event of one of the lines as its sample, and the key of that event.
-/

namespace Watchtower.Classify

open Chrono Parse Machine

/-- An alert of a rule with the event it was fired on. -/
structure Alert.FiredOn (alert : Alert) (rule : Rule) (e : StructuredEvent) : Prop where
  severity : alert.severity = rule.severity
  name : alert.rule = rule.name
  key : rule.matchesKey e = some alert.key
  sample : alert.sampleEvent = some e
  window : alert.windowSecs = rule.window.numSeconds

theorem firedOn_of_observe {rule : Rule} {key : String} {state : WindowState}
    {e : StructuredEvent} {now : DateTime} {alert : Alert} (found : rule.matchesKey e = some key)
    (h : (state.observe rule key e now).2 = some alert) : alert.FiredOn rule e := by
  rcases observe_cases rule key state e now with ⟨_, _, ho⟩ | ⟨_, ho⟩
  · rw [ho] at h
    obtain rfl := Option.some.inj h
    exact ⟨rfl, rfl, found, rfl, rfl⟩
  · rw [ho] at h
    cases h

theorem firedOn_of_mem_alerts (table : RuleTable) {calls : List Call} {alert : Alert}
    (mem : alert ∈ (Classifier.ofRules table.rules).alerts calls) :
    ∃ rule ∈ table.rules, ∃ call ∈ calls, ∃ e, call.event = .structured e ∧
      alert.FiredOn rule e := by
  obtain ⟨past, call, later, rfl, hstep⟩ := mem_alerts.mp mem
  obtain ⟨rule, hrule, key, entry, hhit, hfire⟩ :=
    (Classifier.mem_step_alerts (Classifier.after_distinct table past) call).mp hstep
  rw [Classifier.after_rules] at hrule
  obtain ⟨hevent, hkey, _⟩ := hit_eq_some.mp hhit
  exact ⟨rule, hrule, call, by simp, entry.2, hevent, firedOn_of_observe hkey hfire⟩

/-- The calls of a run on the messages of a journal, each with the time it is taken at. -/
def parsedCalls (u : UnicodeClasses) (messages : List (String × DateTime)) : List Call :=
  messages.map fun message => ⟨parseLine u message.1, message.2⟩

theorem firedOn_of_parsed {u : UnicodeClasses} {messages : List (String × DateTime)}
    {alert : Alert} (mem : alert ∈ Classifier.new.alerts (parsedCalls u messages)) :
    ∃ rule ∈ builtinRules, ∃ message ∈ messages, ∃ e,
      parseLine u message.1 = .structured e ∧ alert.FiredOn rule e := by
  obtain ⟨rule, hrule, call, hcall, e, hevent, fired⟩ := firedOn_of_mem_alerts builtinTable mem
  obtain ⟨message, hmessage, rfl⟩ := List.mem_map.mp hcall
  dsimp only at hevent
  exact ⟨rule, hrule, message, hmessage, e, hevent, fired⟩

/-- The alert of the first hit of a bucket whose rule asks for no more. -/
def firstAlert (rule : Rule) (key : String) (e : StructuredEvent) (now : DateTime) : Alert where
  severity := rule.severity
  rule := rule.name
  key := key
  count := 1
  windowSecs := rule.window.numSeconds
  sampleEvent := some e
  firedAt := now

theorem firstAlert_mem {rule : Rule} (mem : rule ∈ builtinRules) (once : rule.threshold ≤ 1)
    {key : String} {calls : List Call} {e : StructuredEvent} {now : DateTime}
    {later : List (DateTime × StructuredEvent)} (first : rule.hits key calls = (now, e) :: later) :
    firstAlert rule key e now ∈ Classifier.new.alerts calls := by
  have hfire : (observeHit rule key .new (now, e)).2 = some (firstAlert rule key e now) :=
    congrArg Prod.snd (if_pos ⟨once, rfl⟩)
  have hbucket : (Classifier.new.alerts calls).filter (Alert.isFor rule key) =
      bucketAlerts rule key (rule.hits key calls) :=
    Classifier.alerts_for_bucket builtinTable calls mem key
  apply List.mem_of_mem_filter
  rw [hbucket, first, bucketAlerts, outputs_cons, hfire]
  exact List.mem_cons_self

/-- A first fatal event is an alert by itself. -/
def fatalAlertOf (e : StructuredEvent) (now : DateTime) : Alert where
  severity := .page
  rule := "fatal_any"
  key := "any"
  count := 1
  windowSecs := 86400
  sampleEvent := some e
  firedAt := now

theorem fatalAlertOf_mem {e : StructuredEvent} (fatal : e.level = .fatal) (now : DateTime) :
    fatalAlertOf e now ∈ Classifier.new.alerts [⟨.structured e, now⟩] := by
  have hone : fatalAny.hit "any" ⟨.structured e, now⟩ = some (now, e) := by
    simp [hit_eq_some, fatalAny, fatal]
  exact firstAlert_mem List.mem_cons_self le_rfl (List.filterMap_cons_some hone)

theorem fatalAlertOf_mem_parsed {u : UnicodeClasses} {line : String} {e : StructuredEvent}
    (parsed : parseLine u line = .structured e) (fatal : e.level = .fatal) (now : DateTime) :
    fatalAlertOf e now ∈ Classifier.new.alerts (parsedCalls u [(line, now)]) := by
  rw [parsedCalls, List.map_singleton, parsed]
  exact fatalAlertOf_mem fatal now

end Watchtower.Classify
