import Watchtower.Email
import Watchtower.ParsedAlerts

/-!
# Fan-out

`MultiSink` sends an alert to each of its sinks in turn and fails if all of them failed.
It is a sink itself, so its sinks can be fan-outs again; the leaves of such a tree keep a
state of their own, and what they return may depend on it.
-/

namespace Watchtower.FanOut

open Classify Email Machine

universe u v

/-- The trait, over the state that the sinks of a daemon share out among them. -/
structure AlertSink (World : Type u) where
  dispatch : Alert → World → World × Except SinkError Unit

structure MultiSink (World : Type u) where
  sinks : List (AlertSink World)

namespace MultiSink
variable {World : Type u}

/-- The loop over the sinks: the state they leave, and how many failed. -/
def dispatchEach (alert : Alert) : List (AlertSink World) → World → Nat → World × Nat
  | [], world, failures => (world, failures)
  | sink :: rest, world, failures =>
    let sent := sink.dispatch alert world
    dispatchEach alert rest sent.1 (match sent.2 with
      | .error _ => failures + 1
      | .ok _ => failures)

def dispatch (multi : MultiSink World) (alert : Alert) (world : World) :
    World × Except SinkError Unit :=
  let sent := dispatchEach alert multi.sinks world 0
  (sent.1, if sent.2 = multi.sinks.length ∧ multi.sinks.isEmpty = false then
      .error (.failed ("all " ++ toString sent.2 ++ " sinks failed"))
    else .ok ())

/-- `impl AlertSink for MultiSink` -/
def toSink (multi : MultiSink World) : AlertSink World := ⟨multi.dispatch⟩

end MultiSink

/-- Fan-outs of fan-outs, down to the leaves. -/
inductive SinkTree (Leaf : Type u) where
  | leaf (sink : Leaf)
  | multi (sinks : List (SinkTree Leaf))

namespace SinkTree
variable {Leaf : Type u} {World : Type v}

mutual

/-- The sink that a tree is. -/
def sink (sinkOf : Leaf → AlertSink World) : SinkTree Leaf → AlertSink World
  | leaf l => sinkOf l
  | multi trees => MultiSink.toSink ⟨sinks sinkOf trees⟩

def sinks (sinkOf : Leaf → AlertSink World) : List (SinkTree Leaf) → List (AlertSink World)
  | [] => []
  | tree :: rest => tree.sink sinkOf :: sinks sinkOf rest

end

mutual

/-- The leaves from left to right. -/
def leaves : SinkTree Leaf → List Leaf
  | leaf l => [l]
  | multi trees => leavesOf trees

def leavesOf : List (SinkTree Leaf) → List Leaf
  | [] => []
  | tree :: rest => tree.leaves ++ leavesOf rest

end

mutual

/-- There is no empty fan-out in the tree. -/
def NoEmpty : SinkTree Leaf → Prop
  | leaf _ => True
  | multi trees => trees ≠ [] ∧ NoneEmpty trees

def NoneEmpty : List (SinkTree Leaf) → Prop
  | [] => True
  | tree :: rest => tree.NoEmpty ∧ NoneEmpty rest

end

theorem length_sinks (sinkOf : Leaf → AlertSink World) (trees : List (SinkTree Leaf)) :
    (sinks sinkOf trees).length = trees.length := by
  induction trees with
  | nil => rfl
  | cons tree rest ih => rw [sinks, List.length_cons, List.length_cons, ih]

end SinkTree

def Failed (result : Except SinkError Unit) : Prop := ∃ e, result = .error e

section Run
variable {Leaf : Type u} {State : Type v}
  (behave : Leaf → Alert → State → State × Except SinkError Unit)

/-- The calls of the leaves so far, each with what it returned. -/
abbrev CallLog (Leaf : Type u) := List (Leaf × Except SinkError Unit)

/-- A leaf that writes down that it was called. -/
def recorded (leaf : Leaf) : AlertSink (State × CallLog Leaf) where
  dispatch alert world :=
    let sent := behave leaf alert world.1
    ((sent.1, world.2 ++ [(leaf, sent.2)]), sent.2)

/-- The leaves one by one, as a machine. -/
def callLeaf (alert : Alert) (state : State) (leaf : Leaf) : State × Except SinkError Unit :=
  behave leaf alert state

/-- A sink has called each of the leaves once, in order, and failed if they all did. -/
structure CallsEach (alert : Alert) (state : State) (log : CallLog Leaf) (leaves : List Leaf)
    (sent : (State × CallLog Leaf) × Except SinkError Unit) : Prop where
  state_eq : sent.1.1 = after (callLeaf behave alert) state leaves
  log_eq : sent.1.2 = log ++ trace (callLeaf behave alert) state leaves
  failed_iff : Failed sent.2 ↔
    ∀ entry ∈ trace (callLeaf behave alert) state leaves, Failed entry.2

/-- As many sinks of the list have failed as there are, if all their leaves did. -/
structure CountsEach (alert : Alert) (state : State) (log : CallLog Leaf) (leaves : List Leaf)
    (failures total : Nat) (sent : (State × CallLog Leaf) × Nat) : Prop where
  state_eq : sent.1.1 = after (callLeaf behave alert) state leaves
  log_eq : sent.1.2 = log ++ trace (callLeaf behave alert) state leaves
  count_le : sent.2 ≤ failures + total
  failed_iff : sent.2 = failures + total ↔
    ∀ entry ∈ trace (callLeaf behave alert) state leaves, Failed entry.2

variable {behave}

theorem callsEach_leaf (alert : Alert) (state : State) (log : CallLog Leaf) (leaf : Leaf) :
    CallsEach behave alert state log [leaf]
      ((recorded behave leaf).dispatch alert (state, log)) := by
  refine ⟨rfl, rfl, ?_⟩
  simp [recorded, callLeaf]

/-- The first sink and then the others. -/
theorem countsEach_cons {alert : Alert} {state : State} {log : CallLog Leaf}
    {sink : AlertSink (State × CallLog Leaf)} {rest : List (AlertSink (State × CallLog Leaf))}
    {first others : List Leaf} {failures total : Nat}
    (calls : CallsEach behave alert state log first (sink.dispatch alert (state, log)))
    (counts : ∀ state log failures, CountsEach behave alert state log others failures total
      (MultiSink.dispatchEach alert rest (state, log) failures)) :
    CountsEach behave alert state log (first ++ others) failures (total + 1)
      (MultiSink.dispatchEach alert (sink :: rest) (state, log) failures) := by
  rw [MultiSink.dispatchEach]
  obtain ⟨hstate, hlog, hfailed⟩ := calls
  generalize sink.dispatch alert (state, log) = sent at hstate hlog hfailed ⊢
  obtain ⟨⟨next, written⟩, result⟩ := sent
  dsimp only at hstate hlog hfailed ⊢
  subst hstate hlog
  have hsplit : (∀ entry ∈ trace (callLeaf behave alert) state (first ++ others),
      Failed entry.2) ↔ Failed result ∧ ∀ entry ∈ trace (callLeaf behave alert)
        (after (callLeaf behave alert) state first) others, Failed entry.2 := by
    rw [trace_append, List.forall_mem_append, hfailed]
  cases result with
  | error e =>
    dsimp only
    obtain ⟨hstate, hlog, hle, hcount⟩ := counts (after (callLeaf behave alert) state first)
      (log ++ trace (callLeaf behave alert) state first) (failures + 1)
    refine ⟨hstate.trans (after_append _ _ _ _).symm, ?_, by omega, ?_⟩
    · rw [hlog, trace_append, List.append_assoc]
    · rw [hsplit, ← hcount]
      have hthis : Failed (.error e) := ⟨e, rfl⟩
      simp only [hthis, true_and]
      omega
  | ok done =>
    dsimp only
    obtain ⟨hstate, hlog, hle, _⟩ := counts (after (callLeaf behave alert) state first)
      (log ++ trace (callLeaf behave alert) state first) failures
    refine ⟨hstate.trans (after_append _ _ _ _).symm, ?_, by omega, ?_⟩
    · rw [hlog, trace_append, List.append_assoc]
    · rw [hsplit]
      have hthis : ¬ Failed (.ok done) := by
        rintro ⟨e, ⟨⟩⟩
      simp only [hthis, false_and, iff_false]
      omega

/-- A fan-out that is not empty fails if all its sinks did. -/
theorem callsEach_multi {alert : Alert} {state : State} {log : CallLog Leaf}
    {sinks : List (AlertSink (State × CallLog Leaf))} {leaves : List Leaf} (hne : sinks ≠ [])
    (counts : CountsEach behave alert state log leaves 0 sinks.length
      (MultiSink.dispatchEach alert sinks (state, log) 0)) :
    CallsEach behave alert state log leaves
      ((MultiSink.toSink ⟨sinks⟩).dispatch alert (state, log)) := by
  refine ⟨counts.state_eq, counts.log_eq, ?_⟩
  have hcount := counts.failed_iff
  rw [Nat.zero_add] at hcount
  have hempty : sinks.isEmpty = false := by simpa using hne
  rw [← hcount]
  by_cases hall : (MultiSink.dispatchEach alert sinks (state, log) 0).2 = sinks.length
  · simp [MultiSink.toSink, MultiSink.dispatch, hall, hempty, Failed]
  · simp [MultiSink.toSink, MultiSink.dispatch, hall, Failed]

open SinkTree

mutual

/-- Whatever the leaves return, a tree calls each of them once and in order. -/
theorem callsEach_tree (alert : Alert) (tree : SinkTree Leaf) (noEmpty : tree.NoEmpty)
    (state : State) (log : CallLog Leaf) :
    CallsEach behave alert state log tree.leaves
      ((tree.sink (recorded behave)).dispatch alert (state, log)) := by
  cases tree with
  | leaf l =>
    rw [leaves, sink]
    exact callsEach_leaf alert state log l
  | multi trees =>
    rw [NoEmpty] at noEmpty
    rw [leaves, sink]
    have hlength := length_sinks (recorded behave) trees
    refine callsEach_multi ?_ ?_
    · exact List.ne_nil_of_length_pos (hlength ▸ List.length_pos_iff.mpr noEmpty.1)
    · rw [hlength]
      exact countsEach_trees alert trees noEmpty.2 state log 0

theorem countsEach_trees (alert : Alert) (trees : List (SinkTree Leaf))
    (noneEmpty : NoneEmpty trees) (state : State) (log : CallLog Leaf) (failures : Nat) :
    CountsEach behave alert state log (leavesOf trees) failures trees.length
      (MultiSink.dispatchEach alert (sinks (recorded behave) trees) (state, log) failures) := by
  cases trees with
  | nil =>
    rw [leavesOf, sinks, MultiSink.dispatchEach]
    exact ⟨rfl, (List.append_nil log).symm, Nat.le_refl _, by simp⟩
  | cons tree rest =>
    rw [NoneEmpty] at noneEmpty
    rw [leavesOf, sinks]
    exact countsEach_cons (callsEach_tree alert tree noneEmpty.1 state log)
      (countsEach_trees alert rest noneEmpty.2)

end

end Run

/-- In a tree without empty fan-outs every leaf is called once, from left to right and in the
state the earlier calls have left; the tree fails exactly if every leaf did. -/
theorem fan_out_complete {Leaf : Type u} {State : Type v}
    (behave : Leaf → Alert → State → State × Except SinkError Unit) (tree : SinkTree Leaf)
    (noEmpty : tree.NoEmpty) (alert : Alert) (state : State) :
    let sent := (tree.sink (recorded behave)).dispatch alert (state, [])
    sent.1.2.map Prod.fst = tree.leaves ∧
    sent.1 = (after (callLeaf behave alert) state tree.leaves,
      trace (callLeaf behave alert) state tree.leaves) ∧
    (Failed sent.2 ↔ ∀ entry ∈ sent.1.2, Failed entry.2) := by
  dsimp only
  have calls : CallsEach behave alert state [] tree.leaves _ :=
    callsEach_tree alert tree noEmpty state []
  have hlog := calls.log_eq
  rw [List.nil_append] at hlog
  refine ⟨?_, Prod.ext calls.state_eq hlog, ?_⟩
  · rw [hlog, map_fst_trace]
  · rw [hlog]
    exact calls.failed_iff

/-- A sink that takes an alert as long as fewer than `limit` calls were made before. -/
def limited (limit : Nat) (_ : Alert) (calls : Nat) : Nat × Except SinkError Unit :=
  (calls + 1, if calls < limit then .ok () else .error (.failed "full"))

/-- Both sinks of the inner fan-out fail, the one beside it does not. -/
theorem fan_out_complete_partial :
    let tree : SinkTree Nat := .multi [.multi [.leaf 0, .leaf 1], .leaf 3]
    let sent := (tree.sink (recorded limited)).dispatch (fatalAlertOf storageFatal 0) (0, [])
    sent.1.2.map Prod.fst = [0, 1, 3] ∧ sent.1.1 = 3 ∧ ¬ Failed sent.2 := by
  have noEmpty : (SinkTree.multi [.multi [.leaf 0, .leaf 1], .leaf 3]).NoEmpty := by
    simp [SinkTree.NoEmpty, SinkTree.NoneEmpty]
  have complete := fan_out_complete limited _ noEmpty (fatalAlertOf storageFatal 0) 0
  dsimp only at complete ⊢
  refine ⟨complete.1, congrArg Prod.fst complete.2.1, ?_⟩
  rw [complete.2.2, complete.2.1]
  intro all
  obtain ⟨e, h⟩ := all (3, .ok ()) (by decide)
  cases h

end Watchtower.FanOut
