import Mathlib.Algebra.BigOperators.Group.List.Basic
import Watchtower.Foundation.Descent
import Watchtower.Permits

/-!
# The fix loop comes to rest

If no further alert comes, the dispatches and tasks under way come to their ends in any order
of their steps, whatever fails on the way. Then every permit is back. The tasks wait for `git`
and for `claude`, and for the ends of their outputs, without a time limit: a child process that
never exits is a step that is never taken, and its task keeps its permit.
-/

namespace Watchtower.AutoClaude

open Classify Descent

/-- The steps that are left to a dispatch, with those of its task. -/
def DispatchStage.work : DispatchStage → Nat
  | .called _ => 10
  | .makingDir _ _ => 9
  | .openingLog _ _ => 8
  | .writingHeader _ _ => 7
  | .returned => 0

def TaskStage.work : TaskStage → Nat
  | .makingBase _ => 6
  | .addingWorktree _ => 5
  | .spawningClaude _ => 4
  | .running _ => 3
  | .exited _ => 2
  | .draining _ => 1
  | .ended => 0

def FixLoop.work (s : FixLoop) : Nat :=
  (s.dispatches.map DispatchStage.work).sum + (s.tasks.map TaskStage.work).sum

variable (tables : TextTables) (sink : AutoClaudeSink)

/-- A step of what is under way. -/
def Underway (s t : FixLoop) : Prop :=
  Step tables sink s t ∧ t.dispatches.length = s.dispatches.length

variable {tables sink}

theorem DispatchMove.work_lt {available available' : Nat} {d d' : DispatchStage}
    {spawned : Option Task} (move : DispatchMove tables sink available d available' d' spawned) :
    d'.work + ((spawned.map TaskStage.makingBase).toList.map TaskStage.work).sum < d.work := by
  cases move with
  | skipped _ => simp [DispatchStage.work]
  | capReached _ => simp [DispatchStage.work]
  | acquired _ => simp [DispatchStage.work]
  | mkdirFailed => simp [DispatchStage.work]
  | dirMade => simp [DispatchStage.work]
  | openFailed => simp [DispatchStage.work]
  | logOpened => simp [DispatchStage.work]
  | headerFailed => simp [DispatchStage.work]
  | handedOver => simp [DispatchStage.work, TaskStage.work]

theorem TaskMove.work_lt {available available' : Nat} {t t' : TaskStage}
    (move : TaskMove available t available' t') : t'.work < t.work := by
  cases move with
  | baseFailed => simp [TaskStage.work]
  | baseMade => simp [TaskStage.work]
  | gitSpawnFailed => simp [TaskStage.work]
  | worktreeRefused => simp [TaskStage.work]
  | worktreeAdded => simp [TaskStage.work]
  | spawnFailed => simp [TaskStage.work]
  | spawned => simp [TaskStage.work]
  | childExited => simp [TaskStage.work]
  | waited => simp [TaskStage.work]
  | waitFailed => simp [TaskStage.work]
  | drained => simp [TaskStage.work]

theorem sum_middle {α : Type*} (work : α → Nat) (before after : List α) (x : α) :
    ((before ++ x :: after).map work).sum =
      (before.map work).sum + work x + (after.map work).sum := by
  rw [List.map_append, List.map_cons, List.sum_append, List.sum_cons, Nat.add_assoc]

theorem Underway.work_lt {s t : FixLoop} (underway : Underway tables sink s t) :
    t.work < s.work := by
  obtain ⟨hstep, hlength⟩ := underway
  cases hstep with
  | call alert =>
    rw [List.length_append, List.length_singleton] at hlength
    omega
  | dispatch before after tasks move =>
    have hmove := move.work_lt
    simp only [FixLoop.work]
    rw [sum_middle, sum_middle, List.map_append, List.sum_append]
    omega
  | task dispatches before after move =>
    have hmove := move.work_lt
    simp only [FixLoop.work, sum_middle]
    omega

/-- Whatever a dispatch waits for, something becomes of it. -/
theorem DispatchStage.moves (available : Nat) {d : DispatchStage} (h : d ≠ .returned) :
    ∃ available' d' spawned, DispatchMove tables sink available d available' d' spawned := by
  cases d with
  | called alert =>
    cases hpreflight : sink.preflight tables alert with
    | error reason => exact ⟨_, _, _, .skipped hpreflight⟩
    | ok project =>
      cases available with
      | zero => exact ⟨_, _, _, .capReached hpreflight⟩
      | succ left => exact ⟨_, _, _, .acquired hpreflight⟩
  | makingDir alert project => exact ⟨_, _, _, .dirMade⟩
  | openingLog alert project => exact ⟨_, _, _, .logOpened⟩
  | writingHeader alert project => exact ⟨_, _, _, .handedOver⟩
  | returned => exact absurd rfl h

theorem TaskStage.moves (available : Nat) {t : TaskStage} (h : t ≠ .ended) :
    ∃ available' t', TaskMove available t available' t' := by
  cases t with
  | makingBase task => exact ⟨_, _, .baseMade⟩
  | addingWorktree task => exact ⟨_, _, .worktreeAdded⟩
  | spawningClaude task => exact ⟨_, _, .spawned⟩
  | running task => exact ⟨_, _, .childExited⟩
  | exited task => exact ⟨_, _, .waited⟩
  | draining task => exact ⟨_, _, .drained⟩
  | ended => exact absurd rfl h

theorem allEnded_of_stuck {s : FixLoop} (stuck : Stuck (Underway tables sink) s) : s.AllEnded := by
  obtain ⟨available, dispatches, tasks⟩ := s
  constructor
  · intro d mem
    by_contra hd
    obtain ⟨before, after, rfl⟩ := List.append_of_mem mem
    obtain ⟨available', d', spawned, move⟩ := DispatchStage.moves available hd
    exact stuck _ ⟨.dispatch before after tasks move, by simp⟩
  · intro t mem
    by_contra ht
    obtain ⟨before, after, rfl⟩ := List.append_of_mem mem
    obtain ⟨available', t', move⟩ := TaskStage.moves available ht
    exact stuck _ ⟨.task dispatches before after move, rfl⟩

theorem underway_descends (tables : TextTables) (sink : AutoClaudeSink) (maxConcurrent : Nat) :
    Descends (Underway tables sink) (Reachable tables sink maxConcurrent) FixLoop.work where
  good _ _ reachable underway := reachable.tail underway.1
  less _ _ _ underway := underway.work_lt

/-- From every point of every interleaving, whatever fails, as long as each child process exits
and its output comes to an end: after a bounded number of steps everything under way has ended,
and the loop has all its permits again. -/
theorem fix_loop_recovers (tables : TextTables) (sink : AutoClaudeSink) (maxConcurrent : Nat)
    (s : FixLoop) (reachable : Reachable tables sink maxConcurrent s) :
    (∃ n t, Path (Underway tables sink) n s t ∧ Stuck (Underway tables sink) t) ∧
    ∀ n t, Path (Underway tables sink) n s t → n + t.work ≤ s.work ∧
      (Stuck (Underway tables sink) t → t.AllEnded ∧ t.available = maxConcurrent) := by
  have descends := underway_descends tables sink maxConcurrent
  refine ⟨exists_stuck descends reachable, fun n t path =>
    ⟨path.length_add_work_le descends reachable, fun stuck => ?_⟩⟩
  have ended := allEnded_of_stuck stuck
  have conserved := reachable_conserves (path.good descends reachable)
  rw [ended.holders_eq_zero, Nat.add_zero] at conserved
  exact ⟨ended, conserved⟩

/-- The only permit is held by a task whose child process is running. -/
theorem fix_loop_recovers_running :
    Reachable asciiTables registerSink 1 ⟨0, [.returned], [.running registerTask]⟩ ∧
    ∃ n t, Path (Underway asciiTables registerSink) n
        ⟨0, [.returned], [.running registerTask]⟩ t ∧
      Stuck (Underway asciiTables registerSink) t ∧ n ≤ 3 ∧ t.AllEnded ∧ t.available = 1 := by
  obtain ⟨⟨n, t, path, stuck⟩, all⟩ :=
    fix_loop_recovers asciiTables registerSink 1 _ register_running
  obtain ⟨few, ends⟩ := all n t path
  exact ⟨register_running, n, t, path, stuck, (Nat.le_add_right n _).trans few, ends stuck⟩

end Watchtower.AutoClaude
