import Mathlib.Logic.Relation
import Watchtower.Transcript

/-!
# Permits of the fix loop

Any number of dispatches and of their background tasks, one step at a time in any order.
A dispatch takes a permit before its first await and either drops it on return or moves it
into its task; a task drops it where its block ends. The child process exits on its own,
and the wait returns after that, with or without an error.
-/

namespace Watchtower.AutoClaude

open Chrono Classify Email Parse

inductive DispatchStage where
  | called (alert : Alert)
  | makingDir (alert : Alert) (project : String)
  | openingLog (alert : Alert) (project : String)
  | writingHeader (alert : Alert) (project : String)
  | returned

inductive TaskStage where
  | makingBase (task : Task)
  | addingWorktree (task : Task)
  | spawningClaude (task : Task)
  | running (task : Task)
  | exited (task : Task)
  | draining (task : Task)
  | ended

/-- The dispatch owns a permit. -/
def DispatchStage.holdsPermit : DispatchStage → Bool
  | .makingDir _ _ | .openingLog _ _ | .writingHeader _ _ => true
  | .called _ | .returned => false

/-- The task owns a permit. -/
def TaskStage.holdsPermit : TaskStage → Bool
  | .ended => false
  | _ => true

/-- The child process of the task is running. -/
def TaskStage.runsChild : TaskStage → Bool
  | .running _ => true
  | _ => false

section Moves
variable (tables : TextTables) (sink : AutoClaudeSink)

/-- One step of a dispatch, with the available permits before and after it and the task it
spawns. -/
inductive DispatchMove : Nat → DispatchStage → Nat → DispatchStage → Option Task → Prop where
  | skipped {available : Nat} {alert : Alert} {reason : String} :
      sink.preflight tables alert = .error reason →
      DispatchMove available (.called alert) available .returned none
  | capReached {alert : Alert} {project : String} : sink.preflight tables alert = .ok project →
      DispatchMove 0 (.called alert) 0 .returned none
  | acquired {left : Nat} {alert : Alert} {project : String} :
      sink.preflight tables alert = .ok project →
      DispatchMove (left + 1) (.called alert) left (.makingDir alert project) none
  | mkdirFailed {available : Nat} {alert : Alert} {project : String} :
      DispatchMove available (.makingDir alert project) (available + 1) .returned none
  | dirMade {available : Nat} {alert : Alert} {project : String} :
      DispatchMove available (.makingDir alert project) available (.openingLog alert project) none
  | openFailed {available : Nat} {alert : Alert} {project : String} :
      DispatchMove available (.openingLog alert project) (available + 1) .returned none
  | logOpened {available : Nat} {alert : Alert} {project : String} :
      DispatchMove available (.openingLog alert project) available
        (.writingHeader alert project) none
  -- not with the files of tokio, which report no failure of a first write
  | headerFailed {available : Nat} {alert : Alert} {project : String} :
      DispatchMove available (.writingHeader alert project) (available + 1) .returned none
  | handedOver {available : Nat} {alert : Alert} {project : String} :
      DispatchMove available (.writingHeader alert project) available .returned
        (some (sink.task alert project))

/-- One step of a task or of its child process, with the available permits before and
after it. -/
inductive TaskMove : Nat → TaskStage → Nat → TaskStage → Prop where
  | baseFailed {available : Nat} {task : Task} :
      TaskMove available (.makingBase task) (available + 1) .ended
  | baseMade {available : Nat} {task : Task} :
      TaskMove available (.makingBase task) available (.addingWorktree task)
  | gitSpawnFailed {available : Nat} {task : Task} :
      TaskMove available (.addingWorktree task) (available + 1) .ended
  | worktreeRefused {available : Nat} {task : Task} :
      TaskMove available (.addingWorktree task) (available + 1) .ended
  | worktreeAdded {available : Nat} {task : Task} :
      TaskMove available (.addingWorktree task) available (.spawningClaude task)
  | spawnFailed {available : Nat} {task : Task} :
      TaskMove available (.spawningClaude task) (available + 1) .ended
  | spawned {available : Nat} {task : Task} :
      TaskMove available (.spawningClaude task) available (.running task)
  | childExited {available : Nat} {task : Task} :
      TaskMove available (.running task) available (.exited task)
  | waited {available : Nat} {task : Task} :
      TaskMove available (.exited task) available (.draining task)
  | waitFailed {available : Nat} {task : Task} :
      TaskMove available (.exited task) available (.draining task)
  | drained {available : Nat} {task : Task} :
      TaskMove available (.draining task) (available + 1) .ended

/-- The semaphore, the dispatches in the order of their calls and the tasks in the order
they were spawned. -/
structure FixLoop where
  available : Nat
  dispatches : List DispatchStage
  tasks : List TaskStage

def start (maxConcurrent : Nat) : FixLoop := ⟨maxConcurrent, [], []⟩

/-- A new call, or a step of one of the dispatches or tasks. -/
inductive Step : FixLoop → FixLoop → Prop where
  | call (s : FixLoop) (alert : Alert) :
      Step s { s with dispatches := s.dispatches ++ [.called alert] }
  | dispatch {available available' : Nat} {d d' : DispatchStage} {spawned : Option Task}
      (before after : List DispatchStage) (tasks : List TaskStage) :
      DispatchMove tables sink available d available' d' spawned →
      Step ⟨available, before ++ d :: after, tasks⟩
        ⟨available', before ++ d' :: after, tasks ++ (spawned.map TaskStage.makingBase).toList⟩
  | task {available available' : Nat} {t t' : TaskStage} (dispatches : List DispatchStage)
      (before after : List TaskStage) : TaskMove available t available' t' →
      Step ⟨available, dispatches, before ++ t :: after⟩
        ⟨available', dispatches, before ++ t' :: after⟩

def Reachable (maxConcurrent : Nat) (s : FixLoop) : Prop :=
  Relation.ReflTransGen (Step tables sink) (start maxConcurrent) s

end Moves

namespace FixLoop

/-- The dispatches and tasks that hold a permit. -/
def holders (s : FixLoop) : Nat :=
  s.dispatches.countP DispatchStage.holdsPermit + s.tasks.countP TaskStage.holdsPermit

/-- The child processes that are running. -/
def children (s : FixLoop) : Nat := s.tasks.countP TaskStage.runsChild

/-- Every dispatch has returned and every task has ended. -/
def AllEnded (s : FixLoop) : Prop :=
  (∀ d ∈ s.dispatches, d = .returned) ∧ ∀ t ∈ s.tasks, t = .ended

end FixLoop

variable {tables : TextTables} {sink : AutoClaudeSink}

/-- A dispatch keeps the sum of the permits: what it takes it holds, moves or gives back. -/
theorem DispatchMove.conserves {available available' : Nat} {d d' : DispatchStage}
    {spawned : Option Task} (move : DispatchMove tables sink available d available' d' spawned) :
    available' + d'.holdsPermit.toNat + spawned.isSome.toNat =
      available + d.holdsPermit.toNat := by
  cases move with
  | skipped _ => rfl
  | capReached _ => rfl
  | acquired _ => rfl
  | mkdirFailed => rfl
  | dirMade => rfl
  | openFailed => rfl
  | logOpened => rfl
  | headerFailed => rfl
  | handedOver => rfl

/-- A task gives its permit back where it ends, and nowhere else. -/
theorem TaskMove.conserves {available available' : Nat} {t t' : TaskStage}
    (move : TaskMove available t available' t') :
    available' + t'.holdsPermit.toNat = available + t.holdsPermit.toNat := by
  cases move with
  | baseFailed => rfl
  | baseMade => rfl
  | gitSpawnFailed => rfl
  | worktreeRefused => rfl
  | worktreeAdded => rfl
  | spawnFailed => rfl
  | spawned => rfl
  | childExited => rfl
  | waited => rfl
  | waitFailed => rfl
  | drained => rfl

theorem countP_middle {α : Type*} (p : α → Bool) (before after : List α) (x : α) :
    (before ++ x :: after).countP p = before.countP p + (p x).toNat + after.countP p := by
  rw [List.countP_append, List.countP_cons]
  cases p x with
  | false => simp
  | true =>
    simp only [if_true, Bool.toNat_true]
    omega

theorem Step.conserves {s t : FixLoop} (step : Step tables sink s t) :
    t.available + t.holders = s.available + s.holders := by
  cases step with
  | call alert =>
    simp [FixLoop.holders, DispatchStage.holdsPermit]
  | dispatch before after tasks move =>
    have hmove := move.conserves
    rename_i available available' d d' spawned
    have hspawned : ((spawned.map TaskStage.makingBase).toList).countP TaskStage.holdsPermit =
        spawned.isSome.toNat := by
      cases spawned with
      | none => rfl
      | some task => rfl
    simp only [FixLoop.holders]
    rw [countP_middle, countP_middle, List.countP_append, hspawned]
    omega
  | task dispatches before after move =>
    have hmove := move.conserves
    simp only [FixLoop.holders, countP_middle]
    omega

theorem reachable_conserves {maxConcurrent : Nat} {s : FixLoop}
    (reachable : Reachable tables sink maxConcurrent s) :
    s.available + s.holders = maxConcurrent := by
  induction reachable with
  | refl => rfl
  | tail _ step ih => rw [step.conserves, ih]

theorem FixLoop.children_le_holders (s : FixLoop) : s.children ≤ s.holders := by
  have htasks : s.tasks.countP TaskStage.runsChild ≤ s.tasks.countP TaskStage.holdsPermit := by
    refine List.countP_mono_left fun t _ => ?_
    cases t with
    | running task => simp [TaskStage.holdsPermit]
    | _ => simp [TaskStage.runsChild]
  exact Nat.le_trans htasks (Nat.le_add_left _ _)

theorem FixLoop.AllEnded.holders_eq_zero {s : FixLoop} (ended : s.AllEnded) : s.holders = 0 := by
  have hdispatches : s.dispatches.countP DispatchStage.holdsPermit = 0 := by
    refine List.countP_eq_zero.mpr fun d hd => ?_
    rw [ended.1 d hd]
    decide
  have htasks : s.tasks.countP TaskStage.holdsPermit = 0 := by
    refine List.countP_eq_zero.mpr fun t ht => ?_
    rw [ended.2 t ht]
    decide
  rw [FixLoop.holders, hdispatches, htasks]

/-- In any interleaving: no permit is lost or made, the running child processes are at most
as many as there are permits, and all permits are back when everything has ended. -/
theorem permits_conserved (tables : TextTables) (sink : AutoClaudeSink) (maxConcurrent : Nat)
    (s : FixLoop) (reachable : Reachable tables sink maxConcurrent s) :
    s.available + s.holders = maxConcurrent ∧ s.children ≤ maxConcurrent ∧
    (s.AllEnded → s.available = maxConcurrent) := by
  have conserved := reachable_conserves reachable
  have children := s.children_le_holders
  refine ⟨conserved, by omega, fun ended => ?_⟩
  have none := ended.holders_eq_zero
  omega

/-! The steps are those of the code: a dispatch and a task, run without interruption. -/

theorem DispatchMove.quiet {available available' : Nat} {d d' : DispatchStage}
    (move : DispatchMove tables sink available d available' d' none)
    (dispatches : List DispatchStage) (tasks : List TaskStage) :
    Step tables sink ⟨available, dispatches ++ [d], tasks⟩
      ⟨available', dispatches ++ [d'], tasks⟩ := by
  have step := Step.dispatch dispatches [] tasks move
  rwa [Option.map_none, Option.toList_none, List.append_nil] at step

/-- What `dispatch` computes is what its steps lead to. -/
theorem dispatch_runs (available : Nat) (call : Dispatch) (dispatches : List DispatchStage)
    (tasks : List TaskStage) :
    Relation.ReflTransGen (Step tables sink)
      ⟨available, dispatches ++ [.called call.alert], tasks⟩
      ⟨(sink.dispatch tables available call).1, dispatches ++ [.returned],
        tasks ++ ((sink.dispatch tables available call).2.task.map
          TaskStage.makingBase).toList⟩ := by
  cases hpreflight : sink.preflight tables call.alert with
  | error reason =>
    simp only [AutoClaudeSink.dispatch, hpreflight, Option.map_none, Option.toList_none,
      List.append_nil]
    exact .single ((DispatchMove.skipped hpreflight).quiet dispatches tasks)
  | ok project =>
    rw [sink.dispatch_of_preflight tables hpreflight]
    cases available with
    | zero =>
      simp only [AutoClaudeSink.spawnClaude, Option.map_none, Option.toList_none,
        List.append_nil]
      exact .single ((DispatchMove.capReached hpreflight).quiet dispatches tasks)
    | succ left =>
      have acquired : DispatchMove tables sink (left + 1) (.called call.alert) left
        (.makingDir call.alert project) none := .acquired hpreflight
      refine .head (acquired.quiet dispatches tasks) ?_
      have spawned := sink.spawnClaude_cases tables left call project
      generalize sink.spawnClaude tables (left + 1) call project = done at spawned ⊢
      cases spawned with
      | mkdirFailed _ =>
        simp only [Option.map_none, Option.toList_none, List.append_nil]
        exact .single (DispatchMove.mkdirFailed.quiet dispatches tasks)
      | openFailed _ _ =>
        simp only [Option.map_none, Option.toList_none, List.append_nil]
        refine .head (DispatchMove.dirMade.quiet dispatches tasks) ?_
        exact .single (DispatchMove.openFailed.quiet dispatches tasks)
      | handedOver _ _ =>
        refine .head (DispatchMove.dirMade.quiet dispatches tasks) ?_
        refine .head (DispatchMove.logOpened.quiet dispatches tasks) ?_
        exact .single (.dispatch dispatches [] tasks .handedOver)

/-- A task gets as far as `run` says: to its child process, or to its end. -/
theorem task_runs (available : Nat) (task : Task) (io : TaskIo)
    (dispatches : List DispatchStage) (before after : List TaskStage) :
    Relation.ReflTransGen (Step tables sink)
      ⟨available, dispatches, before ++ .makingBase task :: after⟩
      (if (task.run io).2 then ⟨available, dispatches, before ++ .running task :: after⟩
        else ⟨available + 1, dispatches, before ++ .ended :: after⟩) := by
  cases hbase : io.base with
  | error e =>
    simp only [Task.run, hbase, Bool.false_eq_true, if_false]
    exact .single (.task dispatches before after .baseFailed)
  | ok _ =>
    refine .head (.task dispatches before after .baseMade) ?_
    cases hgit : io.git with
    | error e =>
      simp only [Task.run, hbase, hgit, Bool.false_eq_true, if_false]
      exact .single (.task dispatches before after .gitSpawnFailed)
    | ok success =>
      cases success with
      | false =>
        simp only [Task.run, hbase, hgit, Bool.false_eq_true, if_false]
        exact .single (.task dispatches before after .worktreeRefused)
      | true =>
        refine .head (.task dispatches before after .worktreeAdded) ?_
        cases hclaude : io.claude with
        | error e =>
          simp only [Task.run, hbase, hgit, hclaude, Bool.false_eq_true, if_false]
          exact .single (.task dispatches before after .spawnFailed)
        | ok _ =>
          simp only [Task.run, hbase, hgit, hclaude, if_true]
          exact .single (.task dispatches before after .spawned)

def registerTask : Task := registerSink.task registerFatal "/srv/sacredvote"

/-- One permit, and a dispatch whose task has come to its child process. -/
theorem register_running : Reachable asciiTables registerSink 1
    ⟨0, [.returned], [.running registerTask]⟩ := by
  have called : Step asciiTables registerSink (start 1) ⟨1, [.called registerFatal], []⟩ :=
    .call (start 1) registerFatal
  have dispatched : registerSink.dispatch asciiTables 1
      ⟨registerFatal, ⟨.ok (), .ok (), .ok ()⟩, 0⟩ = (0,
        ⟨some (registerSink.logPath (incidentSlug registerFatal),
          incidentHeader registerFatal "/srv/sacredvote" 0), some registerTask, .ok ()⟩) := by
    simp only [AutoClaudeSink.dispatch, registerFatal_passes, AutoClaudeSink.spawnClaude,
      AutoClaudeSink.openIncidentLog, writeAll, registerTask]
  have handed : Relation.ReflTransGen (Step asciiTables registerSink) _ _ :=
    dispatch_runs 1 ⟨registerFatal, ⟨.ok (), .ok (), .ok ()⟩, 0⟩ [] []
  rw [dispatched] at handed
  have running : Relation.ReflTransGen (Step asciiTables registerSink) _ _ :=
    task_runs 0 registerTask ⟨.ok (), .ok true, .ok ()⟩ [.returned] [] []
  exact (Relation.ReflTransGen.single called).trans (handed.trans running)

theorem permits_conserved_running :
    Reachable asciiTables registerSink 1 ⟨0, [.returned], [.running registerTask]⟩ ∧
    FixLoop.holders ⟨0, [.returned], [.running registerTask]⟩ = 1 ∧
    FixLoop.children ⟨0, [.returned], [.running registerTask]⟩ = 1 ∧
    FixLoop.children ⟨0, [.returned], [.running registerTask]⟩ ≤ 1 := by
  have conserved := permits_conserved asciiTables registerSink 1 _ register_running
  exact ⟨register_running, (Nat.zero_add _).symm.trans conserved.1, rfl, conserved.2.1⟩

end Watchtower.AutoClaude
