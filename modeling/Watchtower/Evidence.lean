import Watchtower.BucketRuns
import Watchtower.Foundation.Selection
import Watchtower.Pipeline

/-!
# Every alert has its evidence

From an alert back to the lines that journalctl has written. Whatever the clock does, and
wherever the reader task is by then, the count of an alert is that of lines the reader has
read, each once, and its sample is the last of them.
-/

namespace Watchtower.Classify

open Chrono Machine Parse

/-- A bucket holds the last of its hits. -/
theorem events_after_suffix (rule : Rule) (key : String)
    (entries : List (DateTime × StructuredEvent)) :
    (after (observeHit rule key) .new entries).events <:+ entries := by
  induction entries using List.reverseRecOn with
  | nil => exact List.suffix_refl _
  | append_singleton past entry ih =>
    rw [after_concat, observeHit, observe_events]
    obtain ⟨front, hfront⟩ := (List.dropWhile_suffix _).trans ih
    exact ⟨front, by rw [← List.append_assoc, hfront]⟩

/-- An alert counts hits of its bucket, the last of them that of the call it answers. -/
theorem exists_hits_of_alert {past : List Call} {call : Call} {alert : Alert}
    (mem : alert ∈ ((after Classifier.step .new past).step call).2) :
    ∃ rule ∈ builtinRules, alert.rule = rule.name ∧ rule.threshold ≤ alert.count ∧
      ∃ entries, entries <:+ rule.hits alert.key (past ++ [call]) ∧
        entries.length = alert.count ∧ ∃ entry, entries.getLast? = some entry ∧
          alert.sampleEvent = some entry.2 := by
  obtain ⟨rule, hrule, key, entry, hhit, hfire⟩ :=
    (Classifier.mem_step_alerts (Classifier.after_distinct builtinTable past) call).mp mem
  rw [Classifier.after_rules] at hrule
  rw [Classifier.bucket_after builtinTable past hrule key, observeHit] at hfire
  let state := after (observeHit rule key) .new (rule.hits key past)
  let kept := (state.dropBefore (entry.1 - rule.window)).pushBack entry.1 entry.2
  have hsuffix : kept.events <:+ rule.hits key (past ++ [call]) := by
    have hevents := events_after_suffix rule key (rule.hits key past ++ [entry])
    rw [after_concat, observeHit, observe_events] at hevents
    rw [hits_concat_of_hit hhit]
    exact hevents
  rcases observe_cases rule key state entry.2 entry.1 with ⟨hthreshold, _, ho⟩ | ⟨_, ho⟩
  · rw [ho] at hfire
    obtain rfl := Option.some.inj hfire
    exact ⟨rule, hrule, rfl, hthreshold, kept.events, hsuffix, rfl, (entry.1, entry.2),
      List.getLast?_concat, rfl⟩
  · rw [ho] at hfire
    cases hfire

end Watchtower.Classify

namespace Watchtower.Pipeline

open Chrono Classify Journal Parse Selection

variable {parse : String → Option Json} {u : UnicodeClasses}

/-- The alerts still to be dispatched. -/
def MainTask.alerts : MainTask → List Alert
  | .receiving => []
  | .dispatching alerts => alerts
  | .exited => []

/-- They answer the message received last. -/
def Answers (u : UnicodeClasses) (s : Daemon) : Prop := ∀ alert ∈ s.main.alerts,
  ∃ past entry, s.received = past ++ [entry] ∧
    alert ∈ ((Machine.after Classifier.step .new (past.map (ingestCall u))).step
      (ingestCall u entry)).2

theorem answers_step {s t : Daemon} (inv : Invariant parse u s) (answers : Answers u s)
    (hstep : Step parse u s t) : Answers u t := by
  cases hstep with
  | read line h => exact answers
  | streamEnds h => exact answers
  | send msg h room alive => exact answers
  | sendFails msg h gone => exact answers
  | receive msg rest now h first =>
    intro alert mem
    refine ⟨s.received, (msg, now), rfl, ?_⟩
    rw [← inv.classified]
    exact mem
  | dispatch alert left h =>
    intro other mem
    exact answers other (by rw [h]; exact List.mem_cons_of_mem alert mem)
  | next h => exact fun alert mem => absurd mem List.not_mem_nil
  | exit h closed empty => exact fun alert mem => absurd mem List.not_mem_nil

theorem reachable_answers {s : Daemon} (reachable : Reachable parse u s) : Answers u s := by
  induction reachable with
  | refl => exact fun alert mem => absurd mem List.not_mem_nil
  | tail before hstep answers => exact answers_step (reachable_invariant before) answers hstep

/-- The line carries a message that the rule counts under the key. -/
def CountsFor (parse : String → Option Json) (u : UnicodeClasses) (rule : Rule) (key : String)
    (line : String) (e : StructuredEvent) : Prop :=
  ∃ msg, forward parse line = some msg ∧ parseLine u msg.2 = .structured e ∧
    rule.matchesKey e = some key

/-- The messages that were hits of a bucket came from as many lines. -/
theorem exists_lines_of_hits {s : Daemon} (reachable : Reachable parse u s) {rule : Rule}
    {key : String} {entries : List (DateTime × StructuredEvent)}
    (hits : entries.Sublist (rule.hits key (s.received.map (ingestCall u)))) :
    ∃ evidence : List String, evidence.Sublist s.lines ∧
      List.Forall₂ (fun line entry => CountsFor parse u rule key line entry.2)
        evidence entries := by
  rw [Rule.hits, List.filterMap_map] at hits
  obtain ⟨chosen, hchosen, hentries⟩ := exists_of_sublist_filterMap hits
  have horder := (reachable_invariant reachable).in_order
  have hmessages : (chosen.map Prod.fst).Sublist (s.lines.filterMap (forward parse)) := by
    rw [← horder, List.append_assoc]
    exact (hchosen.map Prod.fst).trans (List.sublist_append_left _ _)
  obtain ⟨evidence, hevidence, hforward⟩ := exists_of_sublist_filterMap hmessages
  rw [List.forall₂_map_right_iff] at hforward
  refine ⟨evidence, hevidence, forall₂_comp (fun line msg entry hline hhit => ?_) hforward
    hentries⟩
  obtain ⟨hevent, hkey, _⟩ := hit_eq_some.mp hhit
  exact ⟨msg.1, hline, hevent, hkey⟩

/-- Every alert that waits to be dispatched has its rule, as many lines as it counts, each
of them read and at a place of its own, and the last of them for a sample. -/
theorem alerts_have_evidence (s : Daemon) (reachable : Reachable parse u s)
    (alert : Alert) (waiting : alert ∈ s.main.alerts) :
    ∃ rule ∈ builtinRules, alert.rule = rule.name ∧ rule.threshold ≤ alert.count ∧
      ∃ evidence : List String, evidence.Sublist s.lines ∧ evidence.length = alert.count ∧
        (∀ line ∈ evidence, ∃ e, CountsFor parse u rule alert.key line e) ∧
        ∃ line e, evidence.getLast? = some line ∧ CountsFor parse u rule alert.key line e ∧
          alert.sampleEvent = some e := by
  obtain ⟨past, last, hreceived, mem⟩ := reachable_answers reachable alert waiting
  obtain ⟨rule, hrule, hname, hthreshold, entries, hsuffix, hcount, entry, hlast, hsample⟩ :=
    exists_hits_of_alert mem
  have hhits : entries.Sublist (rule.hits alert.key (s.received.map (ingestCall u))) := by
    rw [hreceived, List.map_append, List.map_singleton]
    exact hsuffix.sublist
  obtain ⟨evidence, hlines, hcounts⟩ := exists_lines_of_hits reachable hhits
  refine ⟨rule, hrule, hname, hthreshold, evidence, hlines, hcounts.length_eq.trans hcount, ?_⟩
  constructor
  · intro line mem
    obtain ⟨n, hn, rfl⟩ := List.getElem_of_mem mem
    have hboth := hcounts.get hn (hcounts.length_eq ▸ hn)
    exact ⟨_, hboth⟩
  · obtain ⟨line, hline, hcount⟩ := exists_getLast_of_forall₂ hcounts hlast
    exact ⟨line, entry.2, hline, hcount, hsample⟩

def fatalText : String := "[3:55 PM] [FATAL] [db] disk full"

/-- The JSON library on a journal whose lines all carry one message. -/
def fatalParse (_ : String) : Option Json :=
  some (.obj [("MESSAGE", .str fatalText), ("_SYSTEMD_UNIT", .str "u.service")])

/-- The line is read, sent and ingested, and the alert of the fatal rule waits. -/
theorem alerts_have_evidence_fatal : ∃ (s : Daemon) (alert : Alert),
    Reachable fatalParse .ascii s ∧ alert ∈ s.main.alerts ∧
    ∃ rule ∈ builtinRules, alert.rule = rule.name ∧
      ∃ evidence : List String, evidence.Sublist s.lines ∧ evidence.length = alert.count := by
  have hread : Reachable fatalParse .ascii (start.readLine fatalParse "line") :=
    Relation.ReflTransGen.single (Step.read start "line" rfl)
  have hsend := hread.tail (Step.send _ ("u.service", fatalText) (by decide) (by decide)
    (by decide))
  have hrecv := hsend.tail (Step.receive _ ("u.service", fatalText) [] 0 rfl (by decide))
  have hfired : (Classifier.new.step (ingestCall .ascii (("u.service", fatalText), 0))).2 ≠ [] := by
    decide +kernel
  obtain ⟨alert, others, hcons⟩ := List.exists_cons_of_ne_nil hfired
  have hwaits : alert ∈ (Classifier.new.step
      (ingestCall .ascii (("u.service", fatalText), 0))).2 := hcons ▸ List.mem_cons_self
  obtain ⟨rule, hrule, hname, _, evidence, hlines, hcount, _⟩ :=
    alerts_have_evidence _ hrecv alert hwaits
  refine ⟨_, alert, hrecv, ?_, rule, hrule, hname, evidence, hlines, hcount⟩
  exact hwaits

end Watchtower.Pipeline
