import Watchtower.BucketRuns
import Watchtower.Foundation.Descent
import Watchtower.Pipeline

/-!
# Catching up

What both tasks do of their own, with nothing taken from journalctl, comes to an end in any
order of their steps. Then every message has been ingested and every alert been handed to the
sinks, and the main loop waits, or has ended if journalctl has. A dispatch is one step here,
which presumes that the calls of the sinks return: a sink that panics or never comes back
leaves the messages behind its alert where they are.
-/

namespace Watchtower.Pipeline

open Chrono Classify Descent Journal Parse

/-- The alerts of the last message that have not been dispatched yet. -/
def Daemon.outstanding (s : Daemon) : List Alert :=
  match s.main with
  | .dispatching alerts => alerts
  | .receiving | .exited => []

/-- What a step of the main loop hands to the sinks. -/
def Daemon.handed (s t : Daemon) : List Alert :=
  s.outstanding.take (s.outstanding.length - t.outstanding.length)

/-- What is left to do for the main loop. -/
def MainTask.work : MainTask → Nat
  | .exited => 0
  | .receiving => 1
  | .dispatching alerts => alerts.length + 2

/-- A message goes through three steps and as many dispatches as there are rules at most. -/
def Daemon.work (s : Daemon) : Nat :=
  (builtinRules.length + 3) * s.reader.pending.length +
    (builtinRules.length + 2) * s.channel.length + s.main.work

variable (parse : String → Option Json) (u : UnicodeClasses)

/-- A step that takes nothing from journalctl. -/
def Internal (s t : Daemon) : Prop :=
  Step parse u s t ∧ t.lines = s.lines ∧ (s.reader = .reading → t.reader = .reading)

/-- A daemon in one of its runs, and the alerts it has handed to the sinks. -/
inductive Serves : Daemon → List Alert → Prop where
  | start : Serves start []
  | step {s t : Daemon} {handed : List Alert} : Serves s handed → Step parse u s t →
      Serves t (handed ++ s.handed t)

variable {parse u} {s t : Daemon} {handed : List Alert}

theorem Serves.reachable (serves : Serves parse u s handed) : Reachable parse u s := by
  induction serves with
  | start => exact .refl
  | step _ hstep ih => exact ih.tail hstep

theorem handed_of_same (same : t.outstanding = s.outstanding) : s.handed t = [] := by
  rw [Daemon.handed, same, Nat.sub_self, List.take_zero]

/-- A step hands over what it takes off, or ingests a message and takes on its alerts. -/
theorem Step.ledger (step : Step parse u s t) :
    s.handed t ++ t.outstanding = s.outstanding ∧ t.received = s.received ∨
      s.handed t = [] ∧ s.outstanding = [] ∧ ∃ entry, t.received = s.received ++ [entry] ∧
        t.outstanding = (s.classifier.step (ingestCall u entry)).2 := by
  have kept : ∀ {t : Daemon}, t.outstanding = s.outstanding →
      s.handed t ++ t.outstanding = s.outstanding := fun same => by
    rw [handed_of_same same, same, List.nil_append]
  cases step with
  | read line h => exact .inl ⟨kept rfl, rfl⟩
  | streamEnds h => exact .inl ⟨kept rfl, rfl⟩
  | send msg h room alive => exact .inl ⟨kept rfl, rfl⟩
  | sendFails msg h gone => exact .inl ⟨kept rfl, rfl⟩
  | receive msg rest now h first =>
    have hnone : s.outstanding = [] := by rw [Daemon.outstanding, h]
    refine .inr ⟨by rw [Daemon.handed, hnone, List.take_nil], hnone, (msg, now), rfl, ?_⟩
    rw [Daemon.outstanding, Daemon.receive]
  | dispatch alert left h =>
    have hsome : s.outstanding = alert :: left := by rw [Daemon.outstanding, h]
    have hrest : Daemon.outstanding { s with main := .dispatching left } = left := rfl
    refine .inl ⟨?_, rfl⟩
    rw [Daemon.handed, hsome, hrest, List.length_cons, Nat.add_sub_cancel_left]
    rfl
  | next h => exact .inl ⟨kept (by rw [Daemon.outstanding, Daemon.outstanding, h]), rfl⟩
  | exit h closed empty =>
    exact .inl ⟨kept (by rw [Daemon.outstanding, Daemon.outstanding, h]), rfl⟩

/-- The alerts of the messages received are those handed over and those still to be. -/
theorem Serves.ledger (serves : Serves parse u s handed) :
    handed ++ s.outstanding = Classifier.new.alerts (s.received.map (ingestCall u)) := by
  induction serves with
  | start => rfl
  | @step s t handed past hstep ih =>
    rcases hstep.ledger with ⟨hsplit, hreceived⟩ | ⟨hnone, hempty, entry, hreceived, hnew⟩
    · rw [List.append_assoc, hsplit, hreceived, ih]
    · have hclassifier := (reachable_invariant past.reachable).classified
      rw [hempty, List.append_nil] at ih
      rw [hnone, List.append_nil, hnew, hreceived, List.map_append, List.map_singleton,
        Classifier.alerts, Classifier.alertRuns, Machine.outputs_concat, List.flatten_append,
        List.flatten_singleton, ih, hclassifier]
      rfl

/-- Once the stream has ended the reader is done. -/
theorem Step.finished (step : Step parse u s t)
    (before : s.streamEnded = true → s.reader = .finished) (ended : t.streamEnded = true) :
    t.reader = .finished := by
  cases step with
  | read line h => cases h.symm.trans (before ended)
  | streamEnds h => rfl
  | send msg h room alive => cases h.symm.trans (before ended)
  | sendFails msg h gone => rfl
  | receive msg rest now h first => exact before ended
  | dispatch alert left h => exact before ended
  | next h => exact before ended
  | exit h closed empty => exact closed

theorem Reachable.finished (reachable : Reachable parse u s) :
    s.streamEnded = true → s.reader = .finished := by
  induction reachable with
  | refl => exact fun ended => nomatch ended
  | tail _ hstep ih => exact hstep.finished ih

section Work

theorem step_length_le (c : Classifier) (builtin : c.rules = builtinRules) (call : Call) :
    (c.step call).2.length ≤ builtinRules.length := by
  have distinct : (c.rules.map Rule.name).Nodup := by
    rw [builtin]
    exact builtinTable.distinct
  rw [Classifier.step_alerts distinct, ← builtin]
  exact List.length_filterMap_le _ _

theorem Reachable.builtin (reachable : Reachable parse u s) :
    s.classifier.rules = builtinRules := by
  rw [(reachable_invariant reachable).classified, Classifier.after_rules]
  rfl

/-- Every step of its own takes work off the daemon. -/
theorem Internal.work_lt (reachable : Reachable parse u s) (internal : Internal parse u s t) :
    t.work < s.work := by
  obtain ⟨hstep, hlines, hreader⟩ := internal
  cases hstep with
  | read line h =>
    have hlength := congrArg List.length hlines
    rw [Daemon.readLine, List.length_append, List.length_singleton] at hlength
    omega
  | streamEnds h => cases hreader h
  | send msg h room alive =>
    simp only [Daemon.work, h, Reader.pending, List.length_append, List.length_singleton,
      List.length_nil, Nat.mul_add]
    omega
  | sendFails msg h gone =>
    simp only [Daemon.work, h, Reader.pending, List.length_singleton, List.length_nil]
    omega
  | receive msg rest now h first =>
    have hfew := step_length_le s.classifier reachable.builtin (ingestCall u (msg, now))
    simp only [Daemon.work, Daemon.receive, h, first, MainTask.work, List.length_cons,
      Nat.mul_add]
    omega
  | dispatch alert left h =>
    simp only [Daemon.work, h, MainTask.work, List.length_cons]
    omega
  | next h =>
    simp only [Daemon.work, h, MainTask.work, List.length_nil]
    omega
  | exit h closed empty =>
    simp only [Daemon.work, h, MainTask.work]
    omega

theorem internal_descends : Descends (Internal parse u) (Reachable parse u) Daemon.work where
  good _ _ reachable internal := reachable.tail internal.1
  less _ _ reachable internal := internal.work_lt reachable

end Work

section Stuck

/-- Where no step is left, nothing is on its way to the classifier or to the sinks. -/
theorem Reachable.idle (reachable : Reachable parse u s) (stuck : Stuck (Internal parse u) s) :
    s.channel = [] ∧ s.reader.pending = [] ∧ s.outstanding = [] ∧
      (s.main = .receiving ∧ s.reader = .reading ∨ s.main = .exited ∧ s.reader = .finished) := by
  have inv := reachable_invariant reachable
  cases hmain : s.main with
  | dispatching alerts =>
    cases alerts with
    | nil => exact absurd ⟨.next s hmain, rfl, id⟩ (stuck _)
    | cons alert left => exact absurd ⟨.dispatch s alert left hmain, rfl, id⟩ (stuck _)
  | exited =>
    obtain ⟨hreader, hchannel⟩ := inv.exits_last hmain
    refine ⟨hchannel, ?_, ?_, .inr ⟨rfl, hreader⟩⟩
    · rw [hreader, Reader.pending]
    · rw [Daemon.outstanding, hmain]
  | receiving =>
    have hchannel : s.channel = [] := by
      cases hfirst : s.channel with
      | nil => rfl
      | cons msg rest => exact absurd ⟨.receive s msg rest 0 hmain hfirst, rfl, id⟩ (stuck _)
    cases hreader : s.reader with
    | reading =>
      refine ⟨hchannel, rfl, ?_, .inl ⟨rfl, rfl⟩⟩
      rw [Daemon.outstanding, hmain]
    | sending msg =>
      have hroom : s.channel.length < capacity := by
        rw [hchannel]
        decide
      have halive : s.main ≠ .exited := by
        rw [hmain]
        exact MainTask.noConfusion
      exact absurd ⟨.send s msg hreader hroom halive, rfl, fun _ => rfl⟩ (stuck _)
    | finished => exact absurd ⟨.exit s hmain hreader hchannel, rfl, id⟩ (stuck _)

end Stuck

theorem Internal.streamEnded_eq (internal : Internal parse u s t) :
    t.streamEnded = s.streamEnded := by
  obtain ⟨hstep, _, hreader⟩ := internal
  cases hstep with
  | streamEnds h => cases hreader h
  | _ => rfl

/-- What stays along a path of internal steps, and what the sinks are handed. -/
theorem Serves.path {n : Nat} (serves : Serves parse u s handed)
    (path : Path (Internal parse u) n s t) :
    t.lines = s.lines ∧ t.streamEnded = s.streamEnded ∧
      ∃ later, Serves parse u t (handed ++ later) := by
  induction path with
  | here => exact ⟨rfl, rfl, [], by rwa [List.append_nil]⟩
  | @step n s t v _ internal ih =>
    obtain ⟨hlines, hended, later, hserves⟩ := ih serves
    refine ⟨internal.2.1.trans hlines, internal.streamEnded_eq.trans hended,
      later ++ t.handed v, ?_⟩
    rw [← List.append_assoc]
    exact hserves.step internal.1

/-- The daemon has done all it can with the lines of `s`. -/
structure CaughtUp (parse : String → Option Json) (u : UnicodeClasses) (s t : Daemon)
    (handed : List Alert) : Prop where
  ingested : t.received.map Prod.fst = s.lines.filterMap (forward parse)
  alerted : ∃ later, Serves parse u t (handed ++ later) ∧
    handed ++ later = Classifier.new.alerts (t.received.map (ingestCall u))
  waits : s.streamEnded = false → t.main = .receiving ∧ t.reader = .reading
  exits : s.streamEnded = true → t.main = .exited

/-- From every point of every interleaving, in whatever order the tasks go on, the daemon
catches up after a bounded number of steps, as long as every call of a sink returns. -/
theorem catches_up (parse : String → Option Json) (u : UnicodeClasses) (s : Daemon)
    (handed : List Alert) (serves : Serves parse u s handed) :
    (∃ n t, Path (Internal parse u) n s t ∧ Stuck (Internal parse u) t) ∧
    ∀ n t, Path (Internal parse u) n s t → n + t.work ≤ s.work ∧
      (Stuck (Internal parse u) t → CaughtUp parse u s t handed) := by
  refine ⟨exists_stuck internal_descends serves.reachable, fun n t path =>
    ⟨path.length_add_work_le internal_descends serves.reachable, fun stuck => ?_⟩⟩
  have hreachable := path.good internal_descends serves.reachable
  have inv := reachable_invariant hreachable
  obtain ⟨hchannel, hpending, houtstanding, hends⟩ := hreachable.idle stuck
  obtain ⟨hlines, hended, later, hserves⟩ := serves.path path
  have hledger := hserves.ledger
  have horder := inv.in_order
  rw [houtstanding, List.append_nil] at hledger
  rw [hchannel, hpending, List.append_nil, List.append_nil, hlines] at horder
  refine ⟨horder, ⟨later, hserves, hledger⟩, fun hopen => ?_, fun hclosed => ?_⟩
  · refine hends.resolve_right fun ⟨_, hfinished⟩ => ?_
    have := inv.finishes hfinished
    rw [hended, hopen] at this
    cases this
  · have hfinished := hreachable.finished (hended.trans hclosed)
    rcases hends with ⟨_, hreading⟩ | ⟨hexited, _⟩
    · cases hreading.symm.trans hfinished
    · exact hexited

/-- A message is on its way from the reader. -/
theorem catches_up_one_message :
    Serves sampleParse .ascii (start.readLine sampleParse unitLine) [] ∧
    ∃ n t, Path (Internal sampleParse .ascii) n (start.readLine sampleParse unitLine) t ∧
      Stuck (Internal sampleParse .ascii) t ∧
      t.received.map Prod.fst = [("u.service", "a")] ∧ t.main = .receiving := by
  have serves : Serves sampleParse .ascii (start.readLine sampleParse unitLine) [] :=
    Serves.start.step (.read start unitLine rfl)
  obtain ⟨⟨n, t, path, stuck⟩, all⟩ := catches_up sampleParse .ascii _ _ serves
  have caught := (all n t path).2 stuck
  exact ⟨serves, n, t, path, stuck, caught.ingested.trans rfl, (caught.waits rfl).1⟩

end Watchtower.Pipeline
