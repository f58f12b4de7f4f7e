import Mathlib.Logic.Relation
import Watchtower.Classify
import Watchtower.Foundation.Machine
import Watchtower.Journal

/-!
# From journalctl to the classifier

The reader task and the main loop take turns at their `await` points, in any order;
between `recv` and the dispatch of the first alert the main loop does not yield. The
channel is first-in first-out, holds up to 1024 messages, and is closed once the
reader is gone and it is empty.
-/

namespace Watchtower.Pipeline

open Chrono Classify Journal Parse

/-- Where the reader task is. -/
inductive Reader where
  | reading
  | sending (msg : RawMessage)
  | finished
  deriving DecidableEq

/-- Where the main loop is. -/
inductive MainTask where
  | receiving
  | dispatching (alerts : List Alert)
  | exited
  deriving DecidableEq

def capacity : Nat := 1024

/-- The state of both tasks, with the history of the lines read and of the messages
received, each with the time it was ingested at. -/
structure Daemon where
  lines : List String
  streamEnded : Bool
  reader : Reader
  channel : List RawMessage
  main : MainTask
  counter : UInt64
  classifier : Classifier
  received : List (RawMessage × DateTime)

def start : Daemon where
  lines := []
  streamEnded := false
  reader := .reading
  channel := []
  main := .receiving
  counter := 0
  classifier := .new
  received := []

/-- The message the reader is sending. -/
def Reader.pending : Reader → List RawMessage
  | .reading => []
  | .sending msg => [msg]
  | .finished => []

variable (parse : String → Option Json) (u : UnicodeClasses)

/-- The call of `ingest` that a received message leads to. -/
def ingestCall (entry : RawMessage × DateTime) : Call :=
  ⟨parseLine u entry.1.2, entry.2⟩

/-- What the reader does with a line. -/
def Daemon.readLine (s : Daemon) (line : String) : Daemon :=
  { s with
    lines := s.lines ++ [line]
    reader := match forward parse line with
      | none => .reading
      | some msg => .sending msg }

/-- What the main loop does with a message, up to its first dispatch. -/
def Daemon.receive (s : Daemon) (msg : RawMessage) (rest : List RawMessage)
    (now : DateTime) : Daemon :=
  let ingested := s.classifier.step (ingestCall u (msg, now))
  { s with
    channel := rest
    counter := s.counter + 1
    classifier := ingested.1
    main := .dispatching ingested.2
    received := s.received ++ [(msg, now)] }

section Fields
variable (s : Daemon) (msg : RawMessage) (rest : List RawMessage) (now : DateTime)

@[simp] theorem receive_lines : (s.receive u msg rest now).lines = s.lines := rfl

@[simp] theorem receive_reader : (s.receive u msg rest now).reader = s.reader := rfl

@[simp] theorem receive_channel : (s.receive u msg rest now).channel = rest := rfl

@[simp] theorem receive_streamEnded :
    (s.receive u msg rest now).streamEnded = s.streamEnded := rfl

@[simp] theorem receive_received :
    (s.receive u msg rest now).received = s.received ++ [(msg, now)] := rfl

@[simp] theorem receive_counter : (s.receive u msg rest now).counter = s.counter + 1 := rfl

@[simp] theorem receive_classifier : (s.receive u msg rest now).classifier =
    (s.classifier.step (ingestCall u (msg, now))).1 := by
  rw [Daemon.receive]

theorem receive_main : (s.receive u msg rest now).main ≠ .exited :=
  MainTask.noConfusion

end Fields

/-- One step of either task. -/
inductive Step : Daemon → Daemon → Prop
  | read (s : Daemon) (line : String) (h : s.reader = .reading) :
      Step s (s.readLine parse line)
  -- end of file and a read error both end the reader
  | streamEnds (s : Daemon) (h : s.reader = .reading) :
      Step s { s with streamEnded := true, reader := .finished }
  | send (s : Daemon) (msg : RawMessage) (h : s.reader = .sending msg)
      (room : s.channel.length < capacity) (alive : s.main ≠ .exited) :
      Step s { s with channel := s.channel ++ [msg], reader := .reading }
  | sendFails (s : Daemon) (msg : RawMessage) (h : s.reader = .sending msg)
      (gone : s.main = .exited) : Step s { s with reader := .finished }
  | receive (s : Daemon) (msg : RawMessage) (rest : List RawMessage) (now : DateTime)
      (h : s.main = .receiving) (first : s.channel = msg :: rest) :
      Step s (s.receive u msg rest now)
  | dispatch (s : Daemon) (alert : Alert) (left : List Alert)
      (h : s.main = .dispatching (alert :: left)) :
      Step s { s with main := .dispatching left }
  | next (s : Daemon) (h : s.main = .dispatching []) : Step s { s with main := .receiving }
  | exit (s : Daemon) (h : s.main = .receiving) (closed : s.reader = .finished)
      (empty : s.channel = []) : Step s { s with main := .exited }

def Reachable (s : Daemon) : Prop := Relation.ReflTransGen (Step parse u) start s

structure Invariant (s : Daemon) : Prop where
  in_order : s.received.map Prod.fst ++ s.channel ++ s.reader.pending =
    s.lines.filterMap (forward parse)
  classified : s.classifier =
    Machine.after Classifier.step .new (s.received.map (ingestCall u))
  counted : s.counter = UInt64.ofNat s.received.length
  bounded : s.channel.length ≤ capacity
  exits_last : s.main = .exited → s.reader = .finished ∧ s.channel = []
  finishes : s.reader = .finished → s.streamEnded = true

theorem start_invariant : Invariant parse u start where
  in_order := rfl
  classified := rfl
  counted := rfl
  bounded := Nat.zero_le _
  exits_last h := by cases h
  finishes h := by cases h

section Step
variable {parse u} {s : Daemon}

theorem Invariant.readLine (inv : Invariant parse u s) (line : String)
    (h : s.reader = .reading) : Invariant parse u (s.readLine parse line) := by
  have horder := inv.in_order
  rw [h, Reader.pending, List.append_nil] at horder
  have hread : (s.readLine parse line).reader.pending = (forward parse line).toList ∧
      (s.readLine parse line).reader ≠ .finished := by
    rw [Daemon.readLine]
    cases forward parse line with
    | none => exact ⟨rfl, Reader.noConfusion⟩
    | some msg => exact ⟨rfl, Reader.noConfusion⟩
  refine ⟨?_, inv.classified, inv.counted, inv.bounded, fun hexit => ?_,
    fun hdone => absurd hdone hread.2⟩
  · rw [hread.1]
    simp only [Daemon.readLine, List.filterMap_append, ← horder]
    cases hline : forward parse line with
    | none => simp [hline]
    | some msg => simp [hline]
  · have hfinished := (inv.exits_last hexit).1
    rw [h] at hfinished
    cases hfinished

theorem Invariant.send (inv : Invariant parse u s) {msg : RawMessage}
    (h : s.reader = .sending msg) (room : s.channel.length < capacity)
    (alive : s.main ≠ .exited) :
    Invariant parse u { s with channel := s.channel ++ [msg], reader := .reading } := by
  have horder := inv.in_order
  rw [h, Reader.pending] at horder
  refine ⟨?_, inv.classified, inv.counted, ?_, fun hexit => absurd hexit alive, ?_⟩
  · simpa [Reader.pending] using horder
  · rw [List.length_append, List.length_singleton]
    exact room
  · intro hdone
    cases hdone

theorem Invariant.receive (inv : Invariant parse u s) {msg : RawMessage}
    {rest : List RawMessage} (now : DateTime) (first : s.channel = msg :: rest) :
    Invariant parse u (s.receive u msg rest now) := by
  refine ⟨?_, ?_, ?_, ?_, fun hexit => absurd hexit (receive_main u s msg rest now), ?_⟩
  · rw [receive_lines, ← inv.in_order, first]
    simp
  · rw [receive_received, receive_classifier, List.map_append, List.map_singleton,
      Machine.after_concat, ← inv.classified]
  · rw [receive_counter, receive_received, List.length_append, List.length_singleton,
      inv.counted, UInt64.ofNat_add]
    rfl
  · have hbound := inv.bounded
    rw [first, List.length_cons] at hbound
    rw [receive_channel]
    exact Nat.le_of_succ_le hbound
  · rw [receive_reader, receive_streamEnded]
    exact inv.finishes

/-- Each step of either task keeps the invariant. -/
theorem Invariant.step {t : Daemon} (inv : Invariant parse u s)
    (hstep : Step parse u s t) : Invariant parse u t := by
  cases hstep with
  | read line h => exact inv.readLine line h
  | streamEnds h =>
    have horder := inv.in_order
    rw [h] at horder
    refine ⟨horder, inv.classified, inv.counted, inv.bounded, fun hexit => ?_, fun _ => rfl⟩
    exact ⟨rfl, (inv.exits_last hexit).2⟩
  | send msg h room alive => exact inv.send h room alive
  | sendFails msg h gone =>
    have := (inv.exits_last gone).1
    rw [h] at this
    cases this
  | receive msg rest now _ first => exact inv.receive now first
  | dispatch alert left h =>
    refine ⟨inv.in_order, inv.classified, inv.counted, inv.bounded, fun hexit => ?_,
      inv.finishes⟩
    cases hexit
  | next h =>
    refine ⟨inv.in_order, inv.classified, inv.counted, inv.bounded, fun hexit => ?_,
      inv.finishes⟩
    cases hexit
  | exit h closed empty =>
    exact ⟨inv.in_order, inv.classified, inv.counted, inv.bounded, fun _ => ⟨closed, empty⟩,
      inv.finishes⟩

theorem reachable_invariant (reachable : Reachable parse u s) : Invariant parse u s := by
  induction reachable with
  | refl => exact start_invariant parse u
  | tail _ hstep inv => exact inv.step hstep

end Step

/-- At every point of every interleaving: the messages ingested, those in the channel and
the one being sent are the decodable messages of the lines read, in order; the counter
counts the ingested; a line that is not decodable changes nothing but the history; the
reader ends only with the stream, and the main loop only with every message ingested. -/
theorem pipeline_lossless (s : Daemon) (reachable : Reachable parse u s)
    (journalctl : ∀ line ∈ s.lines, JournalctlLine parse line) :
    s.received.map Prod.fst ++ s.channel ++ s.reader.pending =
      s.lines.filterMap (decodable parse) ∧
    s.classifier = Machine.after Classifier.step .new (s.received.map (ingestCall u)) ∧
    s.counter.toNat = s.received.length % UInt64.size ∧
    s.channel.length ≤ capacity ∧
    (∀ line, JournalctlLine parse line → decodable parse line = none →
      s.reader = .reading → s.readLine parse line = { s with lines := s.lines ++ [line] }) ∧
    (s.reader = .finished → s.streamEnded = true) ∧
    (s.main = .exited → s.streamEnded = true ∧
      s.received.map Prod.fst = s.lines.filterMap (decodable parse)) := by
  have inv := reachable_invariant reachable
  have hlines : s.lines.filterMap (forward parse) = s.lines.filterMap (decodable parse) :=
    List.filterMap_congr fun line mem => forward_eq_decodable parse (journalctl line mem)
  have horder := inv.in_order
  rw [hlines] at horder
  refine ⟨horder, inv.classified, ?_, inv.bounded, ?_, inv.finishes, ?_⟩
  · rw [inv.counted, UInt64.toNat_ofNat']
  · intro line hline hnone hreading
    rw [Daemon.readLine, forward_eq_decodable parse hline, hnone, ← hreading]
  · intro hexit
    obtain ⟨hfinished, hempty⟩ := inv.exits_last hexit
    rw [hfinished, hempty, Reader.pending, List.append_nil, List.append_nil] at horder
    exact ⟨inv.finishes hfinished, horder⟩

def unitLine : String := "\x7b\"MESSAGE\":\"a\",\"_SYSTEMD_UNIT\":\"u.service\"\x7d"
def bootLine : String := "-- Boot 7b1c --"

/-- The JSON library on two lines, of which the second is not JSON. -/
def sampleParse (line : String) : Option Json :=
  if line = unitLine then
    some (.obj [("MESSAGE", .str "a"), ("_SYSTEMD_UNIT", .str "u.service")])
  else none

theorem sampleParse_journalctl (line : String) : JournalctlLine sampleParse line := by
  intro json hjson
  rw [sampleParse, Option.ite_none_right_eq_some] at hjson
  obtain rfl := Option.some.inj hjson.2
  exact ⟨_, rfl, by decide⟩

/-- A message is read, sent and ingested around a line that is skipped; then both tasks
end. -/
theorem pipeline_lossless_two_lines :
    ∃ s, Reachable sampleParse .ascii s ∧ s.lines = [unitLine, bootLine] ∧
      s.main = .exited ∧ s.counter.toNat = 1 % UInt64.size ∧
      s.received.map Prod.fst = [unitLine, bootLine].filterMap (decodable sampleParse) ∧
      s.received.map Prod.fst = [("u.service", "a")] := by
  have hread : Reachable sampleParse .ascii (start.readLine sampleParse unitLine) :=
    Relation.ReflTransGen.single (Step.read start unitLine rfl)
  have hsend := hread.tail (Step.send _ ("u.service", "a") (by decide) (by decide) (by decide))
  have hskip := hsend.tail (Step.read _ bootLine rfl)
  have hend := hskip.tail (Step.streamEnds _ (by decide))
  have hrecv := hend.tail (Step.receive _ ("u.service", "a") [] 0 rfl (by decide))
  have hnext := hrecv.tail (Step.next _ (by decide))
  have hexit := hnext.tail (Step.exit _ rfl rfl rfl)
  have lossless := pipeline_lossless sampleParse .ascii _ hexit
    fun line _ => sampleParse_journalctl line
  exact ⟨_, hexit, rfl, rfl, lossless.2.2.1, (lossless.2.2.2.2.2.2 rfl).2, rfl⟩

end Watchtower.Pipeline
