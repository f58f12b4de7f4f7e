import Watchtower.Coverage
import Watchtower.Evidence
import Watchtower.Foundation.Bench
import Watchtower.Shutdown

/-!
# From the journal to the sinks

The reader task, the channel and the main loop, now with the sinks. An `await` stands
before each message, before each sink and after the last, so the reader may go on at any of
these points. Whatever the order, the sinks end up where the loop over the received messages
takes them, and nothing that journalctl has written is lost on its way to a sink, as long as
the calls of the sinks return.
-/

namespace Watchtower.EndToEnd

open AutoClaude Bank Chrono Classify Descent Journal Machine Ntfy Parse Pipeline Sinks

/-- The tasks and the channel, the sinks with the alert they are at, what the last message
finds around the sinks, and the history of the messages received. -/
structure System where
  daemon : Daemon
  bench : Bench Sink Offer Deed
  occasion : Alert → Occasion
  arrivals : List Arrival

def System.start (sinks : List Sink) : System where
  daemon := Pipeline.start
  bench := .idle sinks
  occasion _ := atStart
  arrivals := []

/-- What is left of the alerts of the last message. -/
def System.due (s : System) : List Offer :=
  s.daemon.outstanding.map fun alert => ⟨alert, s.occasion alert⟩

section Steps
variable (parse : String → Option Json) (u : UnicodeClasses) (tables : TextTables)

/-- One step of the process, which has none once a sink has panicked. -/
inductive Step : System → System → Prop
  | reads (s : System) (d : Daemon) (step : Pipeline.Step parse u s.daemon d)
      (same : d.main = s.daemon.main) (alive : s.bench.stopped = false) :
      Step s { s with daemon := d }
  | receives (s : System) (unit : String) (arrival : Arrival) (rest : List RawMessage)
      (h : s.daemon.main = .receiving)
      (first : s.daemon.channel = (unit, arrival.raw) :: rest)
      (alive : s.bench.stopped = false) :
      Step s { s with
        daemon := s.daemon.receive u (unit, arrival.raw) rest arrival.now
        occasion := arrival.occasion
        arrivals := s.arrivals ++ [arrival] }
  -- `sinks.dispatch(&alert)` is called
  | dispatches (s : System) (alert : Alert) (left : List Alert)
      (h : s.daemon.main = .dispatching (alert :: left)) (idle : s.bench.turn = none)
      (alive : s.bench.stopped = false) :
      Step s { s with
        daemon := { s.daemon with main := .dispatching left }
        bench := s.bench.take ⟨alert, s.occasion alert⟩ }
  -- the next sink has its turn, or all have had theirs
  | offers (s : System) (bench : Bench Sink Offer Deed)
      (moves : Moves (Sink.dispatch tables) Deed.panicked s.bench bench) :
      Step s { s with bench := bench }
  | next (s : System) (h : s.daemon.main = .dispatching []) (idle : s.bench.turn = none)
      (alive : s.bench.stopped = false) :
      Step s { s with daemon := { s.daemon with main := .receiving } }
  | exits (s : System) (h : s.daemon.main = .receiving)
      (closed : s.daemon.reader = .finished) (empty : s.daemon.channel = [])
      (alive : s.bench.stopped = false) :
      Step s { s with daemon := { s.daemon with main := .exited } }

def Reachable (sinks : List Sink) : System → Prop :=
  Relation.ReflTransGen (Step parse u tables) (.start sinks)

/-- Where the process has come to on its way through the loop over its messages. -/
structure Follows (sinks : List Sink) (s : System) : Prop where
  reachable : Pipeline.Reachable parse u s.daemon
  received : (s.daemon.received.map fun entry => (entry.1.2, entry.2)) =
    s.arrivals.map fun arrival => (arrival.raw, arrival.now)
  finish : s.bench.finish (Sink.dispatch tables) Deed.panicked s.due =
    offerAll (Sink.dispatch tables) Deed.panicked sinks (offersOf u .new s.arrivals)
  under_way : s.bench.turn ≠ none ∨ s.bench.stopped = true →
    s.daemon.main ≠ .receiving ∧ s.daemon.main ≠ .exited
  settled : s.bench.stopped = true → s.bench.turn = none

end Steps

section Pass
variable {parse : String → Option Json} {u : UnicodeClasses} {tables : TextTables}
  {sinks : List Sink} {s t : System}

/-- A step of the two tasks that leaves the main loop where it is only touches the reader. -/
theorem reader_step {s d : Daemon} (step : Pipeline.Step parse u s d) (same : d.main = s.main) :
    d.received = s.received ∧ d.outstanding = s.outstanding := by
  refine ⟨?_, by rw [Daemon.outstanding, Daemon.outstanding, same]⟩
  cases step with
  | receive msg rest now h first => exact MainTask.noConfusion (same.trans h)
  | _ => rfl

theorem outstanding_of_receiving {s : Daemon} (h : s.main = .receiving) : s.outstanding = [] := by
  rw [Daemon.outstanding, h]

theorem outstanding_of_dispatching {s : Daemon} {alerts : List Alert}
    (h : s.main = .dispatching alerts) : s.outstanding = alerts := by
  rw [Daemon.outstanding, h]

theorem due_of_receiving (h : s.daemon.main = .receiving) : s.due = [] := by
  rw [System.due, outstanding_of_receiving h, List.map_nil]

theorem outstanding_receive (s : Daemon) (msg : RawMessage) (rest : List RawMessage)
    (now : DateTime) : (s.receive u msg rest now).outstanding =
      (s.classifier.step (ingestCall u (msg, now))).2 := by
  rw [Daemon.outstanding, Daemon.receive]

theorem offersOf_concat (u : UnicodeClasses) (c : Classifier) (arrivals : List Arrival)
    (arrival : Arrival) : offersOf u c (arrivals ++ [arrival]) = offersOf u c arrivals ++
      arrival.offers u (after Classifier.step c (arrivalCalls u arrivals)) := by
  induction arrivals generalizing c with
  | nil =>
    have hcalls : arrivalCalls u [] = [] := rfl
    rw [List.nil_append, offersOf, offersOf, offersOf, List.append_nil, List.nil_append, hcalls,
      after_nil]
  | cons first rest ih =>
    have hcalls : arrivalCalls u (first :: rest) =
        ⟨parseLine u first.raw, first.now⟩ :: arrivalCalls u rest := rfl
    rw [List.cons_append, offersOf, offersOf, ih, hcalls, after_cons, Classifier.step,
      List.append_assoc]

theorem start_follows (sinks : List Sink) :
    Follows parse u tables sinks (.start sinks) where
  reachable := .refl
  received := rfl
  finish := rfl
  under_way h := h.elim (absurd rfl) (absurd · Bool.false_ne_true)
  settled h := absurd h Bool.false_ne_true

namespace Follows

theorem idle (follows : Follows parse u tables sinks s) (h : s.daemon.main = .receiving) :
    s.bench.turn = none := by
  by_contra under
  exact (follows.under_way (.inl under)).1 h

/-- The calls of the classifier are those that the messages lead to. -/
theorem calls (follows : Follows parse u tables sinks s) :
    s.daemon.received.map (ingestCall u) = arrivalCalls u s.arrivals := by
  rw [arrivalCalls, ← follows.received, parsedCalls, List.map_map]
  rfl

theorem classified (follows : Follows parse u tables sinks s) :
    s.daemon.classifier = after Classifier.step .new (arrivalCalls u s.arrivals) := by
  rw [(reachable_invariant follows.reachable).classified, follows.calls]

theorem receives (follows : Follows parse u tables sinks s) {unit : String}
    {arrival : Arrival} {rest : List RawMessage} (h : s.daemon.main = .receiving)
    (first : s.daemon.channel = (unit, arrival.raw) :: rest) (alive : s.bench.stopped = false) :
    Follows parse u tables sinks { s with
      daemon := s.daemon.receive u (unit, arrival.raw) rest arrival.now
      occasion := arrival.occasion
      arrivals := s.arrivals ++ [arrival] } := by
  have hdue := due_of_receiving h
  have hpast := follows.finish
  rw [hdue] at hpast
  refine ⟨follows.reachable.tail (.receive s.daemon _ rest arrival.now h first), ?_, ?_, ?_,
    follows.settled⟩
  · rw [receive_received, List.map_append, List.map_append, follows.received]
    rfl
  · rw [finish_append sinks _ _ alive (follows.idle h) hpast, offersOf_concat,
      ← follows.classified, System.due, outstanding_receive, Arrival.offers, ingestCall,
      Classifier.step]
  · exact fun _ => ⟨MainTask.noConfusion, MainTask.noConfusion⟩

theorem dispatches (follows : Follows parse u tables sinks s) {alert : Alert}
    {left : List Alert} (h : s.daemon.main = .dispatching (alert :: left))
    (idle : s.bench.turn = none) (alive : s.bench.stopped = false) :
    Follows parse u tables sinks { s with
      daemon := { s.daemon with main := .dispatching left }
      bench := s.bench.take ⟨alert, s.occasion alert⟩ } := by
  refine ⟨follows.reachable.tail (.dispatch s.daemon alert left h), follows.received, ?_,
    fun _ => ⟨MainTask.noConfusion, MainTask.noConfusion⟩, fun dead => ?_⟩
  · rw [finish_take alive idle, ← follows.finish, System.due, System.due,
      outstanding_of_dispatching h]
    rfl
  · cases alive.symm.trans dead

theorem offers (follows : Follows parse u tables sinks s) {bench : Bench Sink Offer Deed}
    (moves : Moves (Sink.dispatch tables) Deed.panicked s.bench bench) :
    Follows parse u tables sinks { s with bench := bench } := by
  refine ⟨follows.reachable, follows.received, (moves.finish_eq _).trans follows.finish,
    fun _ => follows.under_way (.inl moves.under), fun dead => ?_⟩
  exact moves.settled dead

/-- Each step of the process keeps to the loop over its messages. -/
theorem step (follows : Follows parse u tables sinks s) (hstep : Step parse u tables s t) :
    Follows parse u tables sinks t := by
  cases hstep with
  | reads d step same alive =>
    obtain ⟨hreceived, houtstanding⟩ := reader_step step same
    refine ⟨follows.reachable.tail step, ?_, ?_, ?_, follows.settled⟩
    · rw [hreceived, follows.received]
    · rw [← follows.finish, System.due, System.due, houtstanding]
    · rw [same]
      exact follows.under_way
  | receives unit arrival rest h first alive => exact follows.receives h first alive
  | dispatches alert left h idle alive => exact follows.dispatches h idle alive
  | offers bench moves => exact follows.offers moves
  | next h idle alive =>
    have hdue : s.due = [] := by rw [System.due, outstanding_of_dispatching h, List.map_nil]
    refine ⟨follows.reachable.tail (.next s.daemon h), follows.received, ?_, ?_, follows.settled⟩
    · rw [← follows.finish, hdue]
      rfl
    · rintro (under | dead)
      · exact absurd idle under
      · cases alive.symm.trans dead
  | exits h closed empty alive =>
    have hdue := due_of_receiving h
    refine ⟨follows.reachable.tail (.exit s.daemon h closed empty), follows.received, ?_, ?_,
      follows.settled⟩
    · rw [← follows.finish, hdue]
      rfl
    · rintro (under | dead)
      · exact absurd (follows.idle h) under
      · cases alive.symm.trans dead

end Follows

theorem Reachable.follows (reachable : Reachable parse u tables sinks s) :
    Follows parse u tables sinks s := by
  induction reachable with
  | refl => exact start_follows sinks
  | tail _ hstep ih => exact ih.step hstep

end Pass

/-- At every point of every interleaving the deeds are a beginning of those of the loop over
the received messages. They are all of them when no alert is under way, and when a sink has
panicked. -/
theorem runs_as_mainLoop (parse : String → Option Json) (u : UnicodeClasses)
    (tables : TextTables) (sinks : List Sink) (s : System)
    (reachable : Reachable parse u tables sinks s) :
    Pipeline.Reachable parse u s.daemon ∧
    (s.daemon.received.map fun entry => (entry.1.2, entry.2)) =
      (s.arrivals.map fun arrival => (arrival.raw, arrival.now)) ∧
    s.bench.rows <+: (mainLoop tables u .new sinks s.arrivals).rounds ∧
    (s.bench.stopped = true ∨ s.bench.turn = none ∧ s.daemon.outstanding = [] →
      (mainLoop tables u .new sinks s.arrivals).rounds = s.bench.rows ∧
      (mainLoop tables u .new sinks s.arrivals).sinks = s.bench.front ∧
      (mainLoop tables u .new sinks s.arrivals).alive = !s.bench.stopped) := by
  have follows := reachable.follows
  obtain ⟨hsinks, hrounds, halive⟩ := mainLoop_eq tables u .new sinks s.arrivals
  rw [← follows.finish] at hsinks hrounds halive
  refine ⟨follows.reachable, follows.received, ?_, fun rest => ?_⟩
  · rw [hrounds]
    exact rows_prefix_finish _
  · rw [hsinks, hrounds, halive]
    cases hstopped : s.bench.stopped with
    | true =>
      rw [finish_stopped hstopped]
      exact ⟨rfl, rfl, rfl⟩
    | false =>
      obtain ⟨idle, none_left⟩ := rest.resolve_left (by rw [hstopped]; exact Bool.false_ne_true)
      rw [System.due, none_left, List.map_nil, finish_idle hstopped idle]
      exact ⟨List.append_nil _, rfl, rfl⟩

theorem fatal_read : Reachable fatalParse .ascii asciiTables [.logger]
    { System.start [.logger] with daemon := Pipeline.start.readLine fatalParse "line" } :=
  Relation.ReflTransGen.single (Step.reads _ _ (.read Pipeline.start "line" rfl) rfl rfl)

/-- The line is read and sent, its alert goes to the logger, and no other alert is left. -/
theorem runs_as_mainLoop_fatal : ∃ s : System,
    Reachable fatalParse .ascii asciiTables [.logger] s ∧ s.bench.rows.length = 1 ∧
      (mainLoop asciiTables .ascii .new [.logger] s.arrivals).rounds = s.bench.rows := by
  let arrival : Arrival := ⟨fatalText, 0, fun _ => atStart⟩
  have hsent := fatal_read.tail (Step.reads _ _ (.send _ ("u.service", fatalText) (by decide)
    (by decide) (by decide)) rfl rfl)
  have hreceived := hsent.tail (Step.receives _ "u.service" arrival [] rfl rfl rfl)
  have hone : (Classifier.new.step
      (ingestCall .ascii (("u.service", fatalText), 0))).2.length = 1 := by decide +kernel
  obtain ⟨alert, halert⟩ := List.length_eq_one_iff.mp hone
  have hcalled := hreceived.tail (Step.dispatches _ alert [] (congrArg _ halert) rfl rfl)
  have hlogged := (hcalled.tail (Step.offers _ _ (.passed rfl))).tail (Step.offers _ _ .ended)
  have hall := runs_as_mainLoop fatalParse .ascii asciiTables [.logger] _ hlogged
  exact ⟨_, hlogged, rfl, (hall.2.2.2 (.inr ⟨rfl, rfl⟩)).1⟩

section Descent
variable (parse : String → Option Json) (u : UnicodeClasses) (tables : TextTables)

/-- A step that takes nothing from journalctl. -/
def Internal (s t : System) : Prop :=
  Step parse u tables s t ∧ t.daemon.lines = s.daemon.lines ∧
    (s.daemon.reader = .reading → t.daemon.reader = .reading)

/-- Each dispatch of the main loop makes a turn of as many steps as there are sinks, and one
more. -/
def System.work (s : System) : Nat := (s.bench.size + 2) * s.daemon.work + s.bench.work

variable {parse u tables} {sinks : List Sink} {s t : System}

/-- A step is one of the sinks, or one of the two tasks that starts a turn at most. -/
theorem Step.of_sinks_or_tasks (step : Step parse u tables s t) :
    Moves (Sink.dispatch tables) Deed.panicked s.bench t.bench ∧ t.daemon = s.daemon ∨
      Pipeline.Step parse u s.daemon t.daemon ∧ t.bench.size = s.bench.size ∧
        t.bench.work ≤ s.bench.size + 1 + s.bench.work := by
  cases step with
  | reads d step same alive => exact .inr ⟨step, rfl, Nat.le_add_left _ _⟩
  | receives unit arrival rest h first alive =>
    exact .inr ⟨.receive s.daemon _ rest arrival.now h first, rfl, Nat.le_add_left _ _⟩
  | dispatches alert left h idle alive =>
    refine .inr ⟨.dispatch s.daemon alert left h, take_size idle _, ?_⟩
    rw [take_work, Bench.size]
    omega
  | offers bench moves => exact .inl ⟨moves, rfl⟩
  | next h idle alive => exact .inr ⟨.next s.daemon h, rfl, Nat.le_add_left _ _⟩
  | exits h closed empty alive =>
    exact .inr ⟨.exit s.daemon h closed empty, rfl, Nat.le_add_left _ _⟩

theorem Internal.work_lt (reachable : Reachable parse u tables sinks s)
    (internal : Internal parse u tables s t) : t.work < s.work := by
  obtain ⟨hstep, hlines, hreader⟩ := internal
  rcases hstep.of_sinks_or_tasks with ⟨moves, hdaemon⟩ | ⟨hdaemon, hsize, hturn⟩
  · rw [System.work, System.work, hdaemon, moves.size_eq]
    exact Nat.add_lt_add_left moves.work_lt _
  · have hless : t.daemon.work + 1 ≤ s.daemon.work :=
      Pipeline.Internal.work_lt reachable.follows.reachable ⟨hdaemon, hlines, hreader⟩
    have hwork := Nat.mul_le_mul_left (s.bench.size + 2) hless
    rw [Nat.mul_succ] at hwork
    rw [System.work, System.work, hsize]
    omega

theorem internal_descends (sinks : List Sink) : Descends (Internal parse u tables)
    (Reachable parse u tables sinks) System.work where
  good _ _ reachable internal := reachable.tail internal.1
  less _ _ reachable internal := internal.work_lt reachable

/-- Between two turns, what the tasks can do the process can. -/
theorem exists_step (alive : s.bench.stopped = false) (idle : s.bench.turn = none) {d : Daemon}
    (step : Pipeline.Step parse u s.daemon d) :
    ∃ t, Step parse u tables s t ∧ t.daemon = d := by
  have reads : d.main = s.daemon.main → ∃ t, Step parse u tables s t ∧ t.daemon = d :=
    fun same => ⟨_, .reads s d step same alive, rfl⟩
  cases step with
  | receive msg rest now h first =>
    exact ⟨_, .receives s msg.1 ⟨msg.2, now, s.occasion⟩ rest h first alive, rfl⟩
  | dispatch alert left h => exact ⟨_, .dispatches s alert left h idle alive, rfl⟩
  | next h => exact ⟨_, .next s h idle alive, rfl⟩
  | exit h closed empty => exact ⟨_, .exits s h closed empty alive, rfl⟩
  | _ => exact reads rfl

/-- If the process can do nothing of its own, then nothing is on its way, unless a sink has
panicked. -/
theorem at_rest (stuck : Stuck (Internal parse u tables) s) (alive : s.bench.stopped = false) :
    s.bench.turn = none ∧ Stuck (Pipeline.Internal parse u) s.daemon := by
  have idle : s.bench.turn = none := by
    by_contra under
    obtain ⟨turn, hturn⟩ := Option.ne_none_iff_exists'.mp under
    obtain ⟨bench, moves⟩ := exists_moves alive hturn
    exact stuck _ ⟨.offers s bench moves, rfl, id⟩
  refine ⟨idle, fun d ⟨hstep, hlines, hreader⟩ => ?_⟩
  obtain ⟨t, step, rfl⟩ := exists_step alive idle hstep
  exact stuck t ⟨step, hlines, hreader⟩

/-- What stays along a path of internal steps. -/
theorem stream_of_path {n : Nat} (path : Path (Internal parse u tables) n s t) :
    t.daemon.lines = s.daemon.lines ∧ t.daemon.streamEnded = s.daemon.streamEnded := by
  induction path with
  | here => exact ⟨rfl, rfl⟩
  | step _ internal ih =>
    obtain ⟨hlines, hended⟩ := ih
    refine ⟨internal.2.1.trans hlines, Eq.trans ?_ hended⟩
    rcases internal.1.of_sinks_or_tasks with ⟨_, hdaemon⟩ | ⟨hdaemon, _⟩
    · rw [hdaemon]
    · exact Pipeline.Internal.streamEnded_eq ⟨hdaemon, internal.2⟩

end Descent

section Delivery
variable {parse : String → Option Json} {u : UnicodeClasses} {tables : TextTables}
  {sinks : List Sink} {s t : System}

/-- Each message of the lines of `s` has been ingested, and each of the alerts has gone to
each of the sinks. -/
structure Delivered (parse : String → Option Json) (u : UnicodeClasses) (tables : TextTables)
    (sinks : List Sink) (s t : System) : Prop where
  ingested : t.daemon.received.map Prod.fst = s.daemon.lines.filterMap (forward parse)
  offered : ∃ offers : List Offer, offers.map Offer.alert =
      Classifier.new.alerts (t.daemon.received.map (ingestCall u)) ∧
    ∀ i sink, sinks[i]? = some sink →
      column i t.bench.rows = outputs (Sink.dispatch tables) sink offers
  logged : ∀ i, sinks[i]? = some .logger → column i t.bench.rows =
    (Classifier.new.alerts (t.daemon.received.map (ingestCall u))).map loggedDeed
  waits : s.daemon.streamEnded = false → t.daemon.main = .receiving
  exits : s.daemon.streamEnded = true → t.daemon.main = .exited

/-- A sink has panicked, over a line whose text does not cut at the limit of a push. -/
def Broken (parse : String → Option Json) (u : UnicodeClasses) (s t : System) : Prop :=
  t.bench.stopped = true ∧ ∃ line ∈ s.daemon.lines, ∃ msg, forward parse line = some msg ∧
    ∃ e, parseLine u msg.2 = .structured e ∧ ¬ CutsCleanly e.message

theorem Follows.broken (follows : Follows parse u tables sinks t)
    (lines : t.daemon.lines = s.daemon.lines) (dead : t.bench.stopped = true) :
    Broken parse u s t := by
  have hdead : (mainLoop tables u .new sinks t.arrivals).alive = false := by
    rw [(mainLoop_eq tables u .new sinks t.arrivals).2.2, ← follows.finish, finish_stopped dead]
  rcases mainLoop_cases tables u .new sinks t.arrivals with ⟨halive, _⟩ |
    ⟨_, before, offer, later, p, sink, hoffers, _, panicked, _⟩
  · cases halive.symm.trans hdead
  · obtain ⟨_, e, hsample, hcut⟩ := (panicked_iff sink before offer).mp panicked
    have halert : offer.alert ∈ Classifier.new.alerts (parsedCalls u
        (t.daemon.received.map fun entry => (entry.1.2, entry.2))) := by
      rw [follows.received, ← offersOf_alerts, hoffers]
      exact List.mem_map_of_mem (List.mem_append_right _ List.mem_cons_self)
    obtain ⟨rule, _, message, hmessage, e', parsed, fired⟩ := firedOn_of_parsed halert
    obtain ⟨entry, hentry, rfl⟩ := List.mem_map.mp hmessage
    obtain rfl : e' = e := Option.some.inj (fired.sample.symm.trans hsample)
    have hline : entry.1 ∈ t.daemon.lines.filterMap (forward parse) := by
      rw [← (reachable_invariant follows.reachable).in_order, List.append_assoc]
      exact List.mem_append_left _ (List.mem_map_of_mem hentry)
    obtain ⟨line, mem, hforward⟩ := List.mem_filterMap.mp hline
    exact ⟨dead, line, lines ▸ mem, entry.1, hforward, e', parsed, hcut⟩

theorem Follows.delivered (follows : Follows parse u tables sinks t)
    (lines : t.daemon.lines = s.daemon.lines)
    (ended : t.daemon.streamEnded = s.daemon.streamEnded) (alive : t.bench.stopped = false)
    (idle : t.bench.turn = none) (stuck : Stuck (Pipeline.Internal parse u) t.daemon) :
    Delivered parse u tables sinks s t := by
  have inv := reachable_invariant follows.reachable
  obtain ⟨hchannel, hpending, houtstanding, hends⟩ := follows.reachable.idle stuck
  have horder := inv.in_order
  rw [hchannel, hpending, List.append_nil, List.append_nil, lines] at horder
  have hfinish := follows.finish
  rw [System.due, houtstanding, List.map_nil, finish_idle alive idle] at hfinish
  obtain ⟨_, hrounds, halive⟩ := mainLoop_eq tables u .new sinks t.arrivals
  rw [← hfinish] at hrounds halive
  have hrows : (mainLoop tables u .new sinks t.arrivals).rounds = t.bench.rows :=
    hrounds.trans (List.append_nil _)
  have halerts : (offersOf u .new t.arrivals).map Offer.alert =
      Classifier.new.alerts (t.daemon.received.map (ingestCall u)) := by
    rw [offersOf_alerts, follows.calls, arrivalCalls]
  have hoffered : ∀ i sink, sinks[i]? = some sink → column i t.bench.rows =
      outputs (Sink.dispatch tables) sink (offersOf u .new t.arrivals) := fun i sink hsink => by
    rw [← hrows]
    exact (saw_of_alive halive hsink).2
  refine ⟨horder, ⟨_, halerts, hoffered⟩, fun i hi => ?_, fun hopen => ?_, fun hclosed => ?_⟩
  · rw [hoffered i .logger hi, outputs_logger, halerts]
  · rcases hends with ⟨hreceiving, _⟩ | ⟨_, hfinished⟩
    · exact hreceiving
    · cases (inv.finishes hfinished).symm.trans (ended.trans hopen)
  · have hfinished := follows.reachable.finished (ended.trans hclosed)
    rcases hends with ⟨_, hreading⟩ | ⟨hexited, _⟩
    · cases hreading.symm.trans hfinished
    · exact hexited

end Delivery

/-- From every point of every interleaving, in whatever order the process goes on and
whatever its sinks run into, it comes to rest after a bounded number of steps, with
everything delivered or broken by a line that a push cannot cut. Each turn of a sink is a step:
its call returns or panics. -/
theorem journal_to_sinks (parse : String → Option Json) (u : UnicodeClasses)
    (tables : TextTables) (sinks : List Sink) (s : System)
    (reachable : Reachable parse u tables sinks s) :
    (∃ n t, Path (Internal parse u tables) n s t ∧ Stuck (Internal parse u tables) t) ∧
    ∀ n t, Path (Internal parse u tables) n s t → n + t.work ≤ s.work ∧
      (Stuck (Internal parse u tables) t →
        Delivered parse u tables sinks s t ∨ Broken parse u s t) := by
  have descends := @internal_descends parse u tables sinks
  refine ⟨exists_stuck descends reachable, fun n t path =>
    ⟨path.length_add_work_le descends reachable, fun stuck => ?_⟩⟩
  obtain ⟨hlines, hended⟩ := stream_of_path path
  have hreachable := path.good descends reachable
  cases hstopped : t.bench.stopped with
  | true => exact .inr (hreachable.follows.broken hlines hstopped)
  | false =>
    obtain ⟨idle, hstuck⟩ := at_rest stuck hstopped
    exact .inl (hreachable.follows.delivered hlines hended hstopped idle hstuck)

/-- The line is on its way from the reader, and its text is short. -/
theorem journal_to_sinks_fatal : ∃ n t,
    Path (Internal fatalParse .ascii asciiTables) n
      { System.start [.logger] with daemon := Pipeline.start.readLine fatalParse "line" } t ∧
    Stuck (Internal fatalParse .ascii asciiTables) t ∧
    t.daemon.received.map Prod.fst = [("u.service", fatalText)] ∧ column 0 t.bench.rows =
      (Classifier.new.alerts (t.daemon.received.map (ingestCall .ascii))).map loggedDeed := by
  obtain ⟨⟨n, t, path, stuck⟩, all⟩ :=
    journal_to_sinks fatalParse .ascii asciiTables [.logger] _ fatal_read
  rcases (all n t path).2 stuck with delivered | ⟨_, line, _, msg, hforward, e, parsed, hcut⟩
  · exact ⟨n, t, path, stuck, delivered.ingested.trans rfl, delivered.logged 0 rfl⟩
  · have htext : parseLine .ascii fatalText =
        .structured { diskFull with source := "db", raw := fatalText } := by decide +kernel
    obtain rfl : msg = ("u.service", fatalText) := (Option.some.inj hforward).symm
    obtain rfl := LogEvent.structured.inj (htext.symm.trans parsed)
    exact absurd (.inl (by decide)) hcut

end Watchtower.EndToEnd
