import Watchtower.Sinks
import Watchtower.WindowSpec

/-!
# Nothing goes unnoticed

When a message fills the window of its rule and key, an alert for them has been handed to the
logger less than a cooldown ago, at the latest for this message. A rule with a threshold of
one is full at each of its messages, whatever the clock does. For the other rules the clock
must not have gone back among the messages they count.
-/

namespace Watchtower.Sinks

open AutoClaude Chrono Classify Machine Parse TimedLog

/-- The window of a rule and key has as many messages as the rule asks for: a single one, or
that many by a clock that has not gone back among them. -/
def Full (rule : Rule) (key : String) (calls : List Call) (now : DateTime) : Prop :=
  rule.threshold ≤ 1 ∨
    Sorted Prod.fst (rule.hits key calls) ∧ rule.threshold ≤ rule.inWindow key calls now

section Bucket
variable {rule : Rule} {key : String} {past : List Call} {call : Call} {e : StructuredEvent}

theorem threshold_le_of_full (window : 0 ≤ rule.window)
    (hit : rule.hit key call = some (call.now, e))
    (full : Full rule key (past ++ [call]) call.now) :
    rule.threshold ≤ (((after (observeHit rule key) .new (rule.hits key past)).dropBefore
      (call.now - rule.window)).pushBack call.now e).events.length := by
  rcases full with once | ⟨sorted, enough⟩
  · rw [WindowState.pushBack_events, List.length_append, List.length_singleton]
    omega
  · rw [length_observe_events rule key window sorted hit]
    exact enough

/-- A full window fires, or it has fired less than a cooldown ago. -/
theorem bucketAlerts_covered (window : 0 ≤ rule.window) (cooldown : 0 < rule.cooldown)
    (hit : rule.hit key call = some (call.now, e))
    (full : Full rule key (past ++ [call]) call.now) :
    ∃ alert ∈ bucketAlerts rule key (rule.hits key (past ++ [call])),
      call.now - alert.firedAt < rule.cooldown := by
  have hfull := threshold_le_of_full window hit full
  rw [hits_concat_of_hit hit, bucketAlerts_concat]
  cases hfire : (observeHit rule key (after (observeHit rule key) .new (rule.hits key past))
      (call.now, e)).2 with
  | some alert =>
    refine ⟨alert, List.mem_append_right _ (List.mem_singleton_self _), ?_⟩
    rw [(observe_alert hfire).2.2, Int.sub_self]
    exact cooldown
  | none =>
    have hwarm : ¬ (after (observeHit rule key) .new (rule.hits key past)).inCooldown rule
        call.now = false := by
      intro hcold
      rcases observe_cases rule key (after (observeHit rule key) .new (rule.hits key past)) e
          call.now with ⟨_, _, h⟩ | ⟨hsilent, _⟩
      · rw [observeHit, h] at hfire
        cases hfire
      · exact hsilent ⟨hfull, hcold⟩
    rw [inCooldown_eq_false_iff rule key (Int.le_of_lt cooldown)] at hwarm
    simp only [not_forall, not_not, exists_prop] at hwarm
    obtain ⟨alert, mem, hrecent⟩ := hwarm
    exact ⟨alert, List.mem_append_left _ mem, hrecent⟩

end Bucket

/-- An alert fires at the time of one of its hits. -/
theorem exists_hit_of_bucketAlerts {rule : Rule} {key : String}
    {entries : List (DateTime × StructuredEvent)} {alert : Alert}
    (mem : alert ∈ bucketAlerts rule key entries) : ∃ entry ∈ entries, entry.1 = alert.firedAt := by
  induction entries using List.reverseRecOn with
  | nil => exact absurd mem List.not_mem_nil
  | append_singleton past entry ih =>
    rw [bucketAlerts_concat] at mem
    rcases List.mem_append.mp mem with mem | mem
    · obtain ⟨hit, hmem, htime⟩ := ih mem
      exact ⟨hit, List.mem_append_left _ hmem, htime⟩
    · have hfire := Option.mem_toList.mp mem
      exact ⟨entry, List.mem_append_right _ (List.mem_singleton_self _),
        (observe_alert hfire).2.2.symm⟩

/-- By a clock that has not gone back, no alert has fired after the last message. -/
theorem firedAt_le {rule : Rule} {key : String} {past : List Call} {call : Call}
    {e : StructuredEvent} (hit : rule.hit key call = some (call.now, e))
    (sorted : Sorted Prod.fst (rule.hits key (past ++ [call]))) {alert : Alert}
    (mem : alert ∈ bucketAlerts rule key (rule.hits key (past ++ [call]))) :
    alert.firedAt ≤ call.now := by
  obtain ⟨entry, hentry, htime⟩ := exists_hit_of_bucketAlerts mem
  rw [hits_concat_of_hit hit] at hentry sorted
  rw [← htime]
  rcases List.mem_append.mp hentry with hpast | hlast
  · exact (List.pairwise_append.mp sorted).2.2 entry hpast _ (List.mem_singleton_self _)
  · rw [List.mem_singleton.mp hlast]

theorem severity_of_isFor {calls : List Call} {alert : Alert} {rule : Rule} {key : String}
    (hrule : rule ∈ builtinRules) (mem : alert ∈ Classifier.new.alerts calls)
    (hfor : alert.isFor rule key = true) : alert.severity = rule.severity := by
  obtain ⟨other, hother, _, _, _, _, fired⟩ := firedOn_of_mem_alerts builtinTable mem
  have hname : other.name = rule.name := fired.name.symm.trans (of_decide_eq_true hfor).1
  have hsame := List.inj_on_of_nodup_map builtinTable.distinct hother hrule hname
  rw [fired.severity, hsame]

theorem alerts_append (c : Classifier) (past later : List Call) :
    c.alerts (past ++ later) = c.alerts past ++ (after Classifier.step c past).alerts later := by
  rw [Classifier.alerts, Classifier.alertRuns, outputs_append, List.flatten_append]
  rfl

/-- The calls of the main loop on its arrivals. -/
def arrivalCalls (u : UnicodeClasses) (arrivals : List Arrival) : List Call :=
  parsedCalls u (arrivals.map fun arrival => (arrival.raw, arrival.now))

theorem arrivalCalls_append (u : UnicodeClasses) (before later : List Arrival) :
    arrivalCalls u (before ++ later) = arrivalCalls u before ++ arrivalCalls u later := by
  rw [arrivalCalls, List.map_append, parsedCalls, List.map_append]
  rfl

/-- As long as the daemon is alive, a message that fills a window has its alert with the logger:
one for the same rule and key, fired less than a cooldown before, and not after the message
unless the clock has gone back. -/
theorem full_window_logged (tables : TextTables) (u : UnicodeClasses) (rest : List Sink)
    (before later : List Arrival) (arrival : Arrival)
    (alive : (mainLoop tables u .new (.logger :: rest) (before ++ arrival :: later)).alive = true)
    (rule : Rule) (mem : rule ∈ builtinRules) (key : String) (e : StructuredEvent)
    (parsed : parseLine u arrival.raw = .structured e) (found : rule.matchesKey e = some key)
    (full : Full rule key (arrivalCalls u (before ++ [arrival])) arrival.now) :
    ∃ alert, loggedDeed alert ∈ Bank.column 0
        (mainLoop tables u .new (.logger :: rest) (before ++ arrival :: later)).rounds ∧
      alert.rule = rule.name ∧ alert.key = key ∧ alert.severity = rule.severity ∧
      arrival.now - alert.firedAt < rule.cooldown ∧
      (Sorted Prod.fst (rule.hits key (arrivalCalls u (before ++ [arrival]))) →
        alert.firedAt ≤ arrival.now) := by
  have hsplit : arrivalCalls u (before ++ [arrival]) =
      arrivalCalls u before ++ [⟨.structured e, arrival.now⟩] := by
    rw [arrivalCalls_append, ← parsed]
    rfl
  rw [hsplit] at full
  have hhit : rule.hit key ⟨.structured e, arrival.now⟩ = some (arrival.now, e) :=
    hit_eq_some.mpr ⟨rfl, found, rfl⟩
  obtain ⟨alert, halert, hrecent⟩ := bucketAlerts_covered
    (Int.le_of_lt (builtinTable.window_pos rule mem)) (builtinTable.cooldown_pos rule mem) hhit full
  have hfired := fun sorted => firedAt_le hhit sorted halert
  rw [← hsplit] at hfired
  have hbucket := Classifier.alerts_for_bucket builtinTable
    (arrivalCalls u before ++ [⟨.structured e, arrival.now⟩]) mem key
  rw [← hbucket] at halert
  obtain ⟨hrun, hfor⟩ := List.mem_filter.mp halert
  have hall : alert ∈ Classifier.new.alerts (arrivalCalls u (before ++ arrival :: later)) := by
    have hlater : before ++ arrival :: later = before ++ [arrival] ++ later := by simp
    rw [hlater, arrivalCalls_append, hsplit, alerts_append]
    exact List.mem_append_left _ hrun
  refine ⟨alert, ?_, (of_decide_eq_true hfor).1, (of_decide_eq_true hfor).2,
    severity_of_isFor mem hrun hfor, hrecent, hfired⟩
  rw [(saw_of_alive alive rfl).2, outputs_logger, offersOf_alerts]
  exact List.mem_map_of_mem hall

def diskFull : StructuredEvent where
  level := .fatal
  source := "storage"
  chain := none
  rid := none
  step := none
  message := "disk full"
  raw := "[12:00] [FATAL] [storage] disk full"

/-- Two minutes after the first one. -/
def laterArrival : Arrival := { fatalArrival with now := Duration.seconds 120 }

/-- The second message is in the cooldown of the alert for the first. -/
theorem full_window_logged_fatal : ∃ alert,
    loggedDeed alert ∈ Bank.column 0
      (mainLoop asciiTables .ascii .new [.logger] [fatalArrival, laterArrival]).rounds ∧
    alert.severity = .page ∧ laterArrival.now - alert.firedAt < Duration.seconds 300 := by
  obtain ⟨alert, logged, _, _, hseverity, hrecent, _⟩ := full_window_logged asciiTables .ascii []
    [fatalArrival] [] laterArrival (by decide +kernel) fatalAny List.mem_cons_self "any" diskFull
    (by decide +kernel) rfl (.inl (Nat.le_refl 1))
  exact ⟨alert, logged, hseverity, hrecent⟩

end Watchtower.Sinks
