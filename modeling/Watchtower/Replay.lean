import Watchtower.BucketRuns
import Watchtower.Foundation.TimedLog

/-!
# The live loop and its replay

The main loop reads the clock when it reaches a message, and it reaches a message
only after the sinks took the alerts of the messages before. A replay ingests the
same messages at their journal timestamps. The two classifiers run in step as
long as no window and no cooldown separates the two ways to date a message.
-/

namespace Watchtower.Classify

open Chrono Parse Machine TimedLog

/-- What a replay has to reproduce of an alert. -/
def Alert.summary (alert : Alert) : String × String × Nat :=
  (alert.rule, alert.key, alert.count)

/-- One event under two clocks. -/
structure Twin (α : Type) where
  event : α
  live : DateTime
  journal : DateTime

namespace Twin

def liveCall (twin : Twin LogEvent) : Call := ⟨twin.event, twin.live⟩
def journalCall (twin : Twin LogEvent) : Call := ⟨twin.event, twin.journal⟩

def liveEntry (twin : Twin StructuredEvent) : DateTime × StructuredEvent :=
  (twin.live, twin.event)
def journalEntry (twin : Twin StructuredEvent) : DateTime × StructuredEvent :=
  (twin.journal, twin.event)

/-- The two clocks agree on whether the window and the cooldown of the rule, seen
from the second event, reach back to the first. -/
def SameSide {α : Type} (rule : Rule) (first second : Twin α) : Prop :=
  (first.live < second.live - rule.window ↔
    first.journal < second.journal - rule.window) ∧
  (second.live - first.live < rule.cooldown ↔
    second.journal - first.journal < rule.cooldown)

def hit (rule : Rule) (key : String) (twin : Twin LogEvent) : Option (Twin StructuredEvent) :=
  match twin.event with
  | .unstructured _ => none
  | .structured e =>
    if rule.matchesKey e = some key then some ⟨e, twin.live, twin.journal⟩ else none

end Twin

theorem dropWhile_congr {α : Type*} {p q : α → Bool} {xs : List α}
    (h : ∀ a ∈ xs, p a = q a) : xs.dropWhile p = xs.dropWhile q := by
  induction xs with
  | nil => rfl
  | cons a rest ih =>
    have ha := h a List.mem_cons_self
    have hrest := ih fun b hb => h b (List.mem_cons_of_mem a hb)
    rw [List.dropWhile_cons, List.dropWhile_cons, ha, hrest]

/-- Two states of a bucket that hold the same events under the two clocks. -/
structure InStep (seen : List (Twin StructuredEvent)) (live journal : WindowState) : Prop where
  events : ∃ kept ⊆ seen, live.events = kept.map Twin.liveEntry ∧
    journal.events = kept.map Twin.journalEntry
  lastFired : ∃ last : Option (Twin StructuredEvent), (∀ twin ∈ last, twin ∈ seen) ∧
    live.lastFired = last.map Twin.live ∧ journal.lastFired = last.map Twin.journal

section Bucket
variable {rule : Rule} {seen : List (Twin StructuredEvent)} {live journal : WindowState}
variable {next : Twin StructuredEvent}

theorem InStep.inCooldown (inStep : InStep seen live journal)
    (same : ∀ twin ∈ seen, twin.SameSide rule next) :
    live.inCooldown rule next.live = journal.inCooldown rule next.journal := by
  obtain ⟨last, hseen, hlive, hjournal⟩ := inStep.lastFired
  rw [WindowState.inCooldown, WindowState.inCooldown, hlive, hjournal]
  cases last with
  | none => rfl
  | some twin =>
    have hside := (same twin (hseen twin rfl)).2
    simp only [Option.map_some, Option.any_some]
    exact decide_eq_decide.mpr hside

/-- Both logs drop the same events and take in the next one. -/
theorem InStep.push (inStep : InStep seen live journal)
    (same : ∀ twin ∈ seen, twin.SameSide rule next) :
    InStep (seen ++ [next])
      ((live.dropBefore (next.live - rule.window)).pushBack next.live next.event)
      ((journal.dropBefore (next.journal - rule.window)).pushBack next.journal next.event) := by
  constructor
  · obtain ⟨kept, hseen, hlive, hjournal⟩ := inStep.events
    have hdrop : (kept.dropWhile fun twin => twin.live < next.live - rule.window) =
        kept.dropWhile fun twin => twin.journal < next.journal - rule.window := by
      apply dropWhile_congr
      intro twin mem
      exact decide_eq_decide.mpr (same twin (hseen mem)).1
    refine ⟨(kept.dropWhile fun twin => twin.live < next.live - rule.window) ++ [next],
      ?_, ?_, ?_⟩
    · refine List.append_subset.mpr ⟨?_, List.subset_append_right seen [next]⟩
      intro twin mem
      exact List.mem_append_left _ (hseen (List.dropWhile_subset _ mem))
    · rw [WindowState.pushBack_events, WindowState.dropBefore_events, hlive,
        List.dropWhile_map, List.map_append]
      rfl
    · rw [WindowState.pushBack_events, WindowState.dropBefore_events, hjournal,
        List.dropWhile_map, hdrop, List.map_append]
      rfl
  · obtain ⟨last, hseen, hlive, hjournal⟩ := inStep.lastFired
    exact ⟨last, fun twin h => List.mem_append_left _ (hseen twin h), hlive, hjournal⟩

theorem InStep.length_events (inStep : InStep seen live journal) :
    live.events.length = journal.events.length := by
  obtain ⟨kept, _, hlive, hjournal⟩ := inStep.events
  rw [hlive, hjournal, List.length_map, List.length_map]

/-- One observation keeps the states in step and fires in both or in neither. -/
theorem InStep.observe (key : String) (inStep : InStep seen live journal)
    (same : ∀ twin ∈ seen, twin.SameSide rule next) :
    InStep (seen ++ [next]) (observeHit rule key live next.liveEntry).1
      (observeHit rule key journal next.journalEntry).1 ∧
    (observeHit rule key live next.liveEntry).2.map Alert.summary =
      (observeHit rule key journal next.journalEntry).2.map Alert.summary := by
  have hkept := inStep.push same
  have hlen := hkept.length_events
  have hcool := inStep.inCooldown same
  rcases observe_cases rule key live next.event next.live with ⟨hfull, hcold, hl⟩ | ⟨hsilent, hl⟩
  · rcases observe_cases rule key journal next.event next.journal with
      ⟨_, _, hj⟩ | ⟨hsilent, _⟩
    · rw [observeHit, observeHit, Twin.liveEntry, Twin.journalEntry, hl, hj]
      refine ⟨⟨hkept.events, some next, ?_, rfl, rfl⟩, ?_⟩
      · rintro twin ⟨⟩
        exact List.mem_append_right _ (List.mem_singleton.mpr rfl)
      · simp only [Option.map_some, Alert.summary, hlen]
    · exact absurd ⟨hlen ▸ hfull, hcool ▸ hcold⟩ hsilent
  · rcases observe_cases rule key journal next.event next.journal with
      ⟨hfull, hcold, _⟩ | ⟨_, hj⟩
    · exact absurd ⟨hlen.symm ▸ hfull, hcool.symm ▸ hcold⟩ hsilent
    · rw [observeHit, observeHit, Twin.liveEntry, Twin.journalEntry, hl, hj]
      exact ⟨hkept, rfl⟩

/-- A bucket stays in step over hits that pairwise fall on the same sides. -/
theorem inStep_after (rule : Rule) (key : String) (twins : List (Twin StructuredEvent))
    (same : twins.Pairwise (Twin.SameSide rule)) :
    InStep twins (after (observeHit rule key) .new (twins.map Twin.liveEntry))
      (after (observeHit rule key) .new (twins.map Twin.journalEntry)) := by
  induction twins using List.reverseRecOn with
  | nil =>
    refine ⟨⟨[], List.Subset.refl _, rfl, rfl⟩, none, ?_, rfl, rfl⟩
    rintro twin ⟨⟩
  | append_singleton past next ih =>
    obtain ⟨hpast, _, hnext⟩ := List.pairwise_append.mp same
    rw [List.map_append, List.map_append, List.map_singleton, List.map_singleton,
      after_concat, after_concat]
    exact ((ih hpast).observe key fun twin mem => hnext twin mem next (by simp)).1

end Bucket

section Hits
variable (rule : Rule) (key : String)

theorem hit_liveCall (twin : Twin LogEvent) :
    rule.hit key twin.liveCall = (twin.hit rule key).map Twin.liveEntry := by
  obtain ⟨event, live, journal⟩ := twin
  cases event with
  | unstructured raw => rfl
  | structured e =>
    by_cases hm : rule.matchesKey e = some key
    · simp [Rule.hit, Twin.hit, Twin.liveCall, Twin.liveEntry, hm]
    · simp [Rule.hit, Twin.hit, Twin.liveCall, hm]

theorem hit_journalCall (twin : Twin LogEvent) :
    rule.hit key twin.journalCall = (twin.hit rule key).map Twin.journalEntry := by
  obtain ⟨event, live, journal⟩ := twin
  cases event with
  | unstructured raw => rfl
  | structured e =>
    by_cases hm : rule.matchesKey e = some key
    · simp [Rule.hit, Twin.hit, Twin.journalCall, Twin.journalEntry, hm]
    · simp [Rule.hit, Twin.hit, Twin.journalCall, hm]

theorem hits_liveCalls (twins : List (Twin LogEvent)) :
    rule.hits key (twins.map Twin.liveCall) =
      (twins.filterMap (Twin.hit rule key)).map Twin.liveEntry := by
  rw [Rule.hits, List.filterMap_map, List.map_filterMap]
  exact List.filterMap_congr fun twin _ => hit_liveCall rule key twin

theorem hits_journalCalls (twins : List (Twin LogEvent)) :
    rule.hits key (twins.map Twin.journalCall) =
      (twins.filterMap (Twin.hit rule key)).map Twin.journalEntry := by
  rw [Rule.hits, List.filterMap_map, List.map_filterMap]
  exact List.filterMap_congr fun twin _ => hit_journalCall rule key twin

end Hits

/-- Whenever one rule maps two events of the run to one key, the two clocks agree on
its window and its cooldown. -/
def AgreeingClocks (rules : List Rule) (twins : List (Twin LogEvent)) : Prop :=
  ∀ rule ∈ rules, ∀ key, (twins.filterMap (Twin.hit rule key)).Pairwise (Twin.SameSide rule)

theorem AgreeingClocks.past {rules : List Rule} {past later : List (Twin LogEvent)}
    (agree : AgreeingClocks rules (past ++ later)) : AgreeingClocks rules past := by
  intro rule mem key
  have h := agree rule mem key
  rw [List.filterMap_append] at h
  exact (List.pairwise_append.mp h).1

/-- A message read with the same delay as all others changes no decision. -/
theorem agreeingClocks_of_shift (rules : List Rule) {twins : List (Twin LogEvent)}
    (delay : Duration) (shift : ∀ twin ∈ twins, twin.live = twin.journal + delay) :
    AgreeingClocks rules twins := by
  have hhit : ∀ rule key, ∀ hit ∈ twins.filterMap (Twin.hit rule key),
      hit.live = hit.journal + delay := by
    intro rule key hit mem
    obtain ⟨⟨event, live, journal⟩, htwin, hsome⟩ := List.mem_filterMap.mp mem
    have hshift := shift _ htwin
    cases event with
    | unstructured raw => cases hsome
    | structured e =>
      rw [Twin.hit, Option.ite_none_right_eq_some] at hsome
      obtain rfl := Option.some.inj hsome.2
      exact hshift
  intro rule _ key
  refine List.pairwise_of_forall_mem_list ?_
  intro first hfirst second hsecond
  rw [Twin.SameSide, hhit rule key first hfirst, hhit rule key second hsecond]
  unfold DateTime Duration at *
  constructor
  · constructor <;> intro h <;> omega
  · constructor <;> intro h <;> omega

/-- The two runs emit the same alerts, call by call. -/
theorem alertRuns_of_agreeingClocks (table : RuleTable) (twins : List (Twin LogEvent))
    (agree : AgreeingClocks table.rules twins) :
    ((Classifier.ofRules table.rules).alertRuns (twins.map Twin.liveCall)).map
        (List.map Alert.summary) =
      ((Classifier.ofRules table.rules).alertRuns (twins.map Twin.journalCall)).map
        (List.map Alert.summary) := by
  induction twins using List.reverseRecOn with
  | nil => rfl
  | append_singleton past next ih =>
    have hpast := ih agree.past
    simp only [Classifier.alertRuns, List.map_append, List.map_cons, List.map_nil,
      outputs_concat] at hpast ⊢
    rw [hpast, Classifier.step_alerts (Classifier.after_distinct table _),
      Classifier.step_alerts (Classifier.after_distinct table _), Classifier.after_rules,
      Classifier.after_rules, List.map_filterMap, List.map_filterMap]
    congr 2
    apply List.filterMap_congr
    intro rule mem
    obtain ⟨event, live, journal⟩ := next
    cases event with
    | unstructured raw => rfl
    | structured e =>
      cases found : rule.matchesKey e with
      | none => simp [Twin.liveCall, Twin.journalCall, found]
      | some key =>
        have hhits := agree rule mem key
        have hnext : [Twin.mk (LogEvent.structured e) live journal].filterMap
            (Twin.hit rule key) = [⟨e, live, journal⟩] := by simp [Twin.hit, found]
        rw [List.filterMap_append, hnext] at hhits
        obtain ⟨hseen, _, hside⟩ := List.pairwise_append.mp hhits
        have hsame := ((inStep_after rule key _ hseen).observe key fun twin htwin =>
          hside twin htwin ⟨e, live, journal⟩ (by simp)).2
        simp only [Twin.liveCall, Twin.journalCall, found, Option.bind_some]
        rw [Classifier.bucket_after table _ mem, Classifier.bucket_after table _ mem]
        rw [← hits_liveCalls, ← hits_journalCalls] at hsame
        exact hsame

/-- A journal message and the time the journal gives it. -/
structure Message where
  journalTs : DateTime
  raw : String

/-- How long a message takes to reach the channel, and the sinks to take each of its
alerts. -/
structure Delay where
  latency : Duration
  dispatch : Alert → Duration
  latency_nonneg : 0 ≤ latency
  dispatch_nonneg : ∀ alert, 0 ≤ dispatch alert

/-- The state of `main` between two messages: `free` is when it is back at `recv`. -/
structure MainLoop where
  classifier : Classifier
  free : DateTime

namespace MainLoop

def start (time : DateTime) : MainLoop := ⟨.new, time⟩

variable (u : UnicodeClasses)

/-- One turn of the loop. A message that is there before the loop is free waits in
the channel; the next turn starts when the sinks have taken every alert. -/
def turn (loop : MainLoop) (arrival : Message × Delay) :
    MainLoop × DateTime × List Alert :=
  let now := max loop.free (arrival.1.journalTs + arrival.2.latency)
  let ingested := loop.classifier.step ⟨parseLine u arrival.1.raw, now⟩
  let free := ingested.2.foldl (fun time alert => time + arrival.2.dispatch alert) now
  (⟨ingested.1, free⟩, now, ingested.2)

/-- The events of a run with the time the loop read and the time of the journal. -/
def twins (loop : MainLoop) (arrivals : List (Message × Delay)) : List (Twin LogEvent) :=
  (trace (turn u) loop arrivals).map fun entry =>
    ⟨parseLine u entry.1.1.raw, entry.2.1, entry.1.1.journalTs⟩

def liveAlerts (time : DateTime) (arrivals : List (Message × Delay)) : List Alert :=
  ((outputs (turn u) (start time) arrivals).map Prod.snd).flatten

def replayAlerts (messages : List Message) : List Alert :=
  Classifier.new.alerts (messages.map fun m => ⟨parseLine u m.raw, m.journalTs⟩)

theorem twins_cons (loop : MainLoop) (arrival : Message × Delay)
    (rest : List (Message × Delay)) : loop.twins u (arrival :: rest) =
      ⟨parseLine u arrival.1.raw, (loop.turn u arrival).2.1, arrival.1.journalTs⟩ ::
        (loop.turn u arrival).1.twins u rest := rfl

/-- A turn is one call of `ingest` at the time the loop read. -/
theorem turn_step (loop : MainLoop) (arrival : Message × Delay) :
    loop.classifier.step ⟨parseLine u arrival.1.raw, (loop.turn u arrival).2.1⟩ =
      ((loop.turn u arrival).1.classifier, (loop.turn u arrival).2.2) := by
  simp only [turn, Prod.mk.eta]

theorem alertRuns_twins (loop : MainLoop) (arrivals : List (Message × Delay)) :
    (outputs (turn u) loop arrivals).map Prod.snd =
      loop.classifier.alertRuns ((loop.twins u arrivals).map Twin.liveCall) := by
  induction arrivals generalizing loop with
  | nil => rfl
  | cons arrival rest ih =>
    rw [outputs_cons, List.map_cons, ih, twins_cons, List.map_cons, Twin.liveCall,
      Classifier.alertRuns, Classifier.alertRuns, outputs_cons, turn_step]

theorem journalCalls_twins (loop : MainLoop) (arrivals : List (Message × Delay)) :
    (loop.twins u arrivals).map Twin.journalCall =
      (arrivals.map Prod.fst).map fun m => ⟨parseLine u m.raw, m.journalTs⟩ := by
  induction arrivals generalizing loop with
  | nil => rfl
  | cons arrival rest ih =>
    rw [twins_cons, List.map_cons, ih, Twin.journalCall, List.map_cons, List.map_cons]

end MainLoop

/-- The live loop alerts as its replay does if, for any two messages that one rule maps
to one key, both ways to date them fall on the same side of its window and cooldown. -/
theorem live_eq_replay (u : UnicodeClasses) (time : DateTime)
    (arrivals : List (Message × Delay))
    (agree : AgreeingClocks builtinRules ((MainLoop.start time).twins u arrivals)) :
    (MainLoop.liveAlerts u time arrivals).map Alert.summary =
      (MainLoop.replayAlerts u (arrivals.map Prod.fst)).map Alert.summary := by
  have hlive := MainLoop.alertRuns_twins u (MainLoop.start time) arrivals
  have hruns := alertRuns_of_agreeingClocks builtinTable _ agree
  rw [MainLoop.liveAlerts, MainLoop.replayAlerts, Classifier.alerts, hlive,
    ← MainLoop.journalCalls_twins u (MainLoop.start time), List.map_flatten, List.map_flatten]
  exact congrArg List.flatten hruns

/-- A chain error and two fatal lines 300 s apart; the sinks take `stall` for each alert
of the error. -/
def errorThenFatals (latency stall : Nat) : List (Message × Delay) :=
  [ (⟨Duration.seconds 0, "[15:55:50] [ERROR] [database] chain=registration refused"⟩,
      ⟨Duration.seconds latency, fun _ => Duration.seconds stall,
        Duration.seconds_nonneg latency, fun _ => Duration.seconds_nonneg stall⟩),
    (⟨Duration.seconds 1, "[15:55:51] [FATAL] [storage] unreachable"⟩,
      ⟨Duration.seconds latency, fun _ => 0, Duration.seconds_nonneg latency, fun _ => le_rfl⟩),
    (⟨Duration.seconds 301, "[16:00:51] [FATAL] [storage] unreachable"⟩,
      ⟨Duration.seconds latency, fun _ => 0, Duration.seconds_nonneg latency, fun _ => le_rfl⟩) ]

theorem live_eq_replay_constant_latency :
    (MainLoop.liveAlerts .ascii 0 (errorThenFatals 7 0)).map Alert.summary =
      (MainLoop.replayAlerts .ascii ((errorThenFatals 7 0).map Prod.fst)).map
        Alert.summary :=
  live_eq_replay .ascii 0 (errorThenFatals 7 0)
    (agreeingClocks_of_shift builtinRules (Duration.seconds 7) (by decide))

/-- Sinks that hold the loop for two seconds lose the second fatal alert. -/
theorem stalled_loop_differs_from_replay :
    ¬ ∀ (u : UnicodeClasses) (time : DateTime) (arrivals : List (Message × Delay)),
      Sorted Message.journalTs (arrivals.map Prod.fst) →
      (MainLoop.liveAlerts u time arrivals).map Alert.summary =
        (MainLoop.replayAlerts u (arrivals.map Prod.fst)).map Alert.summary := by
  intro same
  have hstalled := same .ascii 0 (errorThenFatals 0 2) (by decide)
  have hlive : (MainLoop.liveAlerts .ascii 0 (errorThenFatals 0 2)).map Alert.summary =
      [("error_baseline_per_chain", "registration", 1), ("fatal_any", "any", 1)] := by decide
  have hreplay : (MainLoop.replayAlerts .ascii ((errorThenFatals 0 2).map Prod.fst)).map
      Alert.summary = [("error_baseline_per_chain", "registration", 1),
        ("fatal_any", "any", 1), ("fatal_any", "any", 2)] := by decide
  rw [hlive, hreplay] at hstalled
  exact absurd hstalled (by decide)

end Watchtower.Classify
