import Watchtower.IncidentSlugs
import Watchtower.Permits

/-!
# Transcripts and worktrees of their own

The fix loop on a file system. A transcript is opened with `create_new`, which fails where
the file is there already; other processes may create files, and remove those that no live
task writes to. Whatever the slugs are, no two live tasks share a transcript or a worktree.
-/

namespace Watchtower.AutoClaude

open Chrono Classify

/-- The task of a stage, until it ends. -/
def TaskStage.live : TaskStage → Option Task
  | .makingBase task | .addingWorktree task | .spawningClaude task | .running task
  | .exited task | .draining task => some task
  | .ended => none

/-- The transcript that a dispatch has created and not handed over yet. -/
def DispatchStage.transcript (sink : AutoClaudeSink) : DispatchStage → Option String
  | .writingHeader alert _ => some (sink.logPath (incidentSlug alert))
  | _ => none

/-- The file that a step of a dispatch creates. -/
def created (sink : AutoClaudeSink) : DispatchStage → DispatchStage → Option String
  | .openingLog alert _, .writingHeader _ _ => some (sink.logPath (incidentSlug alert))
  | _, _ => none

/-- The transcript that a live task writes to. -/
def TaskStage.transcript (stage : TaskStage) : Option String := stage.live.map Task.logPath

/-- The transcripts in use, by dispatches and by live tasks. -/
def FixLoop.transcripts (sink : AutoClaudeSink) (s : FixLoop) : List String :=
  s.dispatches.filterMap (DispatchStage.transcript sink) ++ s.tasks.filterMap TaskStage.transcript

/-- The fix loop and the files there are. -/
structure Incidents where
  loop : FixLoop
  files : List String

section Steps
variable (tables : TextTables) (sink : AutoClaudeSink)

inductive IncidentStep : Incidents → Incidents → Prop where
  | call (s : Incidents) (alert : Alert) :
      IncidentStep s { s with
        loop := { s.loop with dispatches := s.loop.dispatches ++ [.called alert] } }
  | dispatch {available available' : Nat} {d d' : DispatchStage} {spawned : Option Task}
      (before after : List DispatchStage) (tasks : List TaskStage) (files : List String) :
      DispatchMove tables sink available d available' d' spawned →
      (∀ path ∈ created sink d d', path ∉ files) →
      IncidentStep ⟨⟨available, before ++ d :: after, tasks⟩, files⟩
        ⟨⟨available', before ++ d' :: after,
          tasks ++ (spawned.map TaskStage.makingBase).toList⟩,
          (created sink d d').toList ++ files⟩
  | task {available available' : Nat} {t t' : TaskStage} (dispatches : List DispatchStage)
      (before after : List TaskStage) (files : List String) :
      TaskMove available t available' t' →
      IncidentStep ⟨⟨available, dispatches, before ++ t :: after⟩, files⟩
        ⟨⟨available', dispatches, before ++ t' :: after⟩, files⟩
  | createdBy (s : Incidents) (path : String) :
      IncidentStep s { s with files := path :: s.files }
  | removed (s : Incidents) (path : String) : path ∉ s.loop.transcripts sink →
      IncidentStep s { s with files := s.files.filter (· ≠ path) }

def IncidentReachable (maxConcurrent : Nat) (files : List String) (s : Incidents) : Prop :=
  Relation.ReflTransGen (IncidentStep tables sink) ⟨start maxConcurrent, files⟩ s

end Steps

variable {tables : TextTables} {sink : AutoClaudeSink}

/-- With the files left out the steps are those of the fix loop. -/
theorem IncidentStep.refines {s t : Incidents} (step : IncidentStep tables sink s t) :
    Relation.ReflTransGen (Step tables sink) s.loop t.loop := by
  cases step with
  | call => exact .single (.call s.loop _)
  | dispatch before after tasks files move _ => exact .single (.dispatch before after tasks move)
  | task dispatches before after files move => exact .single (.task dispatches before after move)
  | createdBy => exact .refl
  | removed _ => exact .refl

theorem IncidentReachable.refines {maxConcurrent : Nat} {files : List String} {s : Incidents}
    (reachable : IncidentReachable tables sink maxConcurrent files s) :
    Reachable tables sink maxConcurrent s.loop := by
  induction reachable with
  | refl => exact .refl
  | tail _ step ih => exact ih.trans step.refines

section Joins

theorem no_slash_padded (width n : Nat) : '/' ∉ (padded width n).toList := fun h =>
  absurd (padded_digits width n '/' h) (by decide)

theorem no_slash_yearText (year : Int) : '/' ∉ (yearText year).toList := by
  by_cases hfour : 0 ≤ year ∧ year ≤ 9999
  · rw [yearText_of_four hfour]
    exact no_slash_padded _ _
  · rw [yearText_of_sign hfour, List.mem_cons, not_or]
    refine ⟨?_, no_slash_padded _ _⟩
    split <;> decide

theorem no_slash_compactTime (t : DateTime) : '/' ∉ (compactTime t).toList := by
  rw [compactTime_toList, List.mem_append, not_or]
  refine ⟨no_slash_yearText _, ?_⟩
  simp only [clockText, List.mem_append, List.mem_cons, List.not_mem_nil, or_false, not_or]
  exact ⟨no_slash_padded _ _, no_slash_padded _ _, by decide, no_slash_padded _ _,
    no_slash_padded _ _, no_slash_padded _ _, by decide⟩

theorem head_incidentSlug (alert : Alert) : (incidentSlug alert).toList.head? ≠ some '/' := by
  have hslash := no_slash_compactTime alert.firedAt
  rw [incidentSlug_toList, List.append_assoc]
  cases htime : (compactTime alert.firedAt).toList with
  | nil => exact fun h => absurd (Option.some.inj h) (by decide)
  | cons c rest =>
    rw [htime] at hslash
    intro h
    exact hslash (Option.some.inj h ▸ List.mem_cons_self)

theorem join_inj {base name name' : String} (hname : name.toList.head? ≠ some '/')
    (hname' : name'.toList.head? ≠ some '/') (h : join base name = join base name') :
    name = name' := by
  rw [join, join, if_neg hname, if_neg hname'] at h
  split at h
  · exact (String.append_right_inj _).mp h
  · rw [String.append_assoc, String.append_assoc] at h
    exact (String.append_right_inj _).mp ((String.append_right_inj _).mp h)

end Joins

section Counts

theorem count_filterMap_middle {α : Type*} (f : α → Option String) (p : String)
    (before after : List α) (x : α) : ((before ++ x :: after).filterMap f).count p =
      (before.filterMap f).count p + (f x).toList.count p + (after.filterMap f).count p := by
  rw [List.filterMap_append, List.count_append, List.filterMap_cons]
  cases f x with
  | none => simp
  | some path =>
    rw [Option.toList_some, List.count_cons, List.count_singleton]
    omega

/-- A dispatch uses what it has created, until it hands it over. -/
theorem DispatchMove.transcripts {available available' : Nat} {d d' : DispatchStage}
    {spawned : Option Task} (move : DispatchMove tables sink available d available' d' spawned)
    (p : String) : (d'.transcript sink).toList.count p + (spawned.map Task.logPath).toList.count p ≤
      (d.transcript sink).toList.count p + (created sink d d').toList.count p := by
  cases move with
  | skipped _ => exact Nat.le_refl 0
  | capReached _ => exact Nat.le_refl 0
  | acquired _ => exact Nat.le_refl 0
  | mkdirFailed => exact Nat.le_refl 0
  | dirMade => exact Nat.le_refl 0
  | openFailed => exact Nat.le_refl 0
  | logOpened => simp [DispatchStage.transcript, created]
  | headerFailed => exact Nat.zero_le _
  | handedOver => simp [DispatchStage.transcript, created, AutoClaudeSink.task]

/-- What a dispatch spawns is a task of the sink. -/
theorem DispatchMove.made {available available' : Nat} {d d' : DispatchStage} {task : Task}
    (move : DispatchMove tables sink available d available' d' (some task)) :
    ∃ alert project, task = sink.task alert project := by
  cases move with
  | handedOver => exact ⟨_, _, rfl⟩

/-- A task keeps what it is until it ends. -/
theorem TaskMove.live {available available' : Nat} {t t' : TaskStage}
    (move : TaskMove available t available' t') : t'.live = t.live ∨ t'.live = none := by
  cases move with
  | baseFailed => exact .inr rfl
  | baseMade => exact .inl rfl
  | gitSpawnFailed => exact .inr rfl
  | worktreeRefused => exact .inr rfl
  | worktreeAdded => exact .inl rfl
  | spawnFailed => exact .inr rfl
  | spawned => exact .inl rfl
  | childExited => exact .inl rfl
  | waited => exact .inl rfl
  | waitFailed => exact .inl rfl
  | drained => exact .inr rfl

theorem filterMap_spawned (spawned : Option Task) :
    (spawned.map TaskStage.makingBase).toList.filterMap TaskStage.transcript =
      (spawned.map Task.logPath).toList := by
  cases spawned with
  | none => rfl
  | some task => rfl

end Counts

/-- Each transcript in use has been created, and is used once. -/
structure Incidents.Exclusive (sink : AutoClaudeSink) (s : Incidents) : Prop where
  once : ∀ p, (s.loop.transcripts sink).count p ≤ 1
  created : ∀ p ∈ s.loop.transcripts sink, p ∈ s.files
  made : ∀ stage ∈ s.loop.tasks, ∀ task ∈ stage.live, ∃ alert project,
    task = sink.task alert project

section Invariant

theorem exclusive_start (maxConcurrent : Nat) (files : List String) :
    Incidents.Exclusive sink ⟨start maxConcurrent, files⟩ where
  once _ := Nat.zero_le _
  created _ h := absurd h List.not_mem_nil
  made _ h := absurd h List.not_mem_nil

/-- A step that takes no transcript but those it creates keeps them apart. -/
theorem Incidents.Exclusive.grow {s t : Incidents} (inv : s.Exclusive sink) (new : Option String)
    (fresh : ∀ path ∈ new, path ∉ s.files) (files : ∀ p, p ∈ s.files → p ∈ t.files)
    (added : ∀ path ∈ new, path ∈ t.files)
    (count : ∀ p, (t.loop.transcripts sink).count p ≤
      (s.loop.transcripts sink).count p + new.toList.count p)
    (made : ∀ stage ∈ t.loop.tasks, ∀ task ∈ stage.live, ∃ alert project,
      task = sink.task alert project) : t.Exclusive sink := by
  refine ⟨fun p => ?_, fun p mem => ?_, made⟩
  · refine Nat.le_trans (count p) ?_
    cases new with
    | none => exact inv.once p
    | some path =>
      rw [Option.toList_some, List.count_singleton]
      split
      · next h =>
        obtain rfl := beq_iff_eq.mp h
        have hnone : (s.loop.transcripts sink).count path = 0 :=
          List.count_eq_zero.mpr fun hp => fresh path rfl (inv.created path hp)
        omega
      · exact inv.once p
  · have hpos := Nat.lt_of_lt_of_le (List.count_pos_iff.mpr mem) (count p)
    cases new with
    | none => exact files p (inv.created p (List.count_pos_iff.mp hpos))
    | some path =>
      rw [Option.toList_some, List.count_singleton] at hpos
      split at hpos
      · next h => exact beq_iff_eq.mp h ▸ added path rfl
      · exact files p (inv.created p (List.count_pos_iff.mp hpos))

theorem Incidents.Exclusive.step {s t : Incidents} (inv : s.Exclusive sink)
    (step : IncidentStep tables sink s t) : t.Exclusive sink := by
  cases step with
  | call _ alert =>
    have hcalled : [DispatchStage.called alert].filterMap (DispatchStage.transcript sink) = [] :=
      rfl
    refine inv.grow none nofun (fun p h => h) nofun (fun p => Nat.le_of_eq ?_) inv.made
    rw [FixLoop.transcripts, FixLoop.transcripts, List.filterMap_append, hcalled, List.append_nil]
    rfl
  | dispatch before after tasks files move fresh =>
    rename_i available available' d d' spawned
    refine inv.grow (AutoClaude.created sink d d') fresh (fun p h => List.mem_append_right _ h)
      (fun path h => List.mem_append_left _ (Option.mem_toList.mpr h)) (fun p => ?_) ?_
    · have hmove := move.transcripts p
      rw [FixLoop.transcripts, FixLoop.transcripts, List.count_append, List.count_append,
        count_filterMap_middle, count_filterMap_middle, List.filterMap_append, List.count_append,
        filterMap_spawned]
      dsimp only
      omega
    · intro stage hstage task htask
      rcases List.mem_append.mp hstage with hold | hnew
      · exact inv.made stage hold task htask
      · obtain ⟨made, hmade, rfl⟩ := Option.map_eq_some_iff.mp (Option.mem_toList.mp hnew)
        obtain rfl := Option.some.inj htask
        subst hmade
        exact move.made
  | task dispatches before after files move =>
    rename_i available available' t t'
    have hcount : ∀ p, t'.transcript.toList.count p ≤ t.transcript.toList.count p := by
      intro p
      rcases move.live with h | h
      · rw [TaskStage.transcript, h, TaskStage.transcript]
      · rw [TaskStage.transcript, h]
        exact Nat.zero_le _
    refine inv.grow none nofun (fun p h => h) nofun (fun p => ?_) ?_
    · have hp := hcount p
      rw [FixLoop.transcripts, FixLoop.transcripts, List.count_append, List.count_append,
        count_filterMap_middle, count_filterMap_middle]
      dsimp only
      omega
    · intro stage hstage task htask
      rcases List.mem_append.mp hstage with hold | hnew
      · exact inv.made stage (List.mem_append_left _ hold) task htask
      · rcases List.mem_cons.mp hnew with rfl | hnew
        · rcases move.live with h | h
          · rw [h] at htask
            exact inv.made t (List.mem_append_right _ List.mem_cons_self) task htask
          · rw [h] at htask
            cases htask
        · exact inv.made stage (List.mem_append_right _ (List.mem_cons_of_mem _ hnew)) task htask
  | createdBy _ path =>
    exact inv.grow none nofun (fun p h => List.mem_cons_of_mem _ h) nofun
      (fun p => Nat.le_refl _) inv.made
  | removed _ path unused =>
    refine ⟨inv.once, fun p mem => ?_, inv.made⟩
    refine List.mem_filter.mpr ⟨inv.created p mem, decide_eq_true ?_⟩
    rintro rfl
    exact unused mem

theorem IncidentReachable.exclusive {maxConcurrent : Nat} {files : List String} {s : Incidents}
    (reachable : IncidentReachable tables sink maxConcurrent files s) : s.Exclusive sink := by
  induction reachable with
  | refl => exact exclusive_start maxConcurrent files
  | tail _ step ih => exact ih.step step

end Invariant

/-- The tasks that have not ended. -/
def FixLoop.liveTasks (s : FixLoop) : List Task := s.tasks.filterMap TaskStage.live

theorem task_logPath (sink : AutoClaudeSink) (alert : Alert) (project : String) :
    (sink.task alert project).logPath = sink.logPath (incidentSlug alert) := by
  simp only [AutoClaudeSink.task]

/-- In any interleaving, with other processes creating files and removing unused ones: every
live task has its transcript, and no two share a transcript or a worktree. -/
theorem worktrees_exclusive (tables : TextTables) (sink : AutoClaudeSink) (maxConcurrent : Nat)
    (files : List String) (s : Incidents)
    (reachable : IncidentReachable tables sink maxConcurrent files s) :
    (∀ task ∈ s.loop.liveTasks, task.logPath ∈ s.files) ∧
    s.loop.liveTasks.Pairwise fun first second =>
      first.logPath ≠ second.logPath ∧ first.worktreePath ≠ second.worktreePath := by
  have inv := reachable.exclusive
  have hpaths : s.loop.liveTasks.map Task.logPath = s.loop.tasks.filterMap TaskStage.transcript :=
    List.map_filterMap
  have hnodup : (s.loop.liveTasks.map Task.logPath).Nodup := by
    rw [hpaths, List.nodup_iff_count_le_one]
    intro p
    have hp := inv.once p
    rw [FixLoop.transcripts, List.count_append] at hp
    omega
  refine ⟨fun task mem => inv.created _ (List.mem_append_right _ ?_), ?_⟩
  · rw [← hpaths]
    exact List.mem_map_of_mem mem
  · refine (List.pairwise_map.mp hnodup).imp_of_mem fun {first second} hfirst hsecond hne => ?_
    obtain ⟨stage, hstage, hlive⟩ := List.mem_filterMap.mp hfirst
    obtain ⟨stage', hstage', hlive'⟩ := List.mem_filterMap.mp hsecond
    obtain ⟨alert, project, rfl⟩ := inv.made stage hstage first hlive
    obtain ⟨alert', project', rfl⟩ := inv.made stage' hstage' second hlive'
    refine ⟨hne, fun hsame => hne ?_⟩
    have hslug : incidentSlug alert = incidentSlug alert' :=
      join_inj (head_incidentSlug alert) (head_incidentSlug alert') hsame
    rw [task_logPath, task_logPath, hslug]

/-- A dispatch that is not interrupted and finds its transcript free. -/
theorem IncidentReachable.dispatched {maxConcurrent left : Nat} {files now : List String}
    {dispatches : List DispatchStage} {tasks : List TaskStage}
    (reachable : IncidentReachable tables sink maxConcurrent files
      ⟨⟨left + 1, dispatches, tasks⟩, now⟩)
    {alert : Alert} {project : String} (passes : sink.preflight tables alert = .ok project)
    (free : sink.logPath (incidentSlug alert) ∉ now) :
    IncidentReachable tables sink maxConcurrent files
      ⟨⟨left, dispatches ++ [.returned], tasks ++ [.makingBase (sink.task alert project)]⟩,
        sink.logPath (incidentSlug alert) :: now⟩ := by
  have hcall := reachable.tail (.call _ alert)
  have hacquired := hcall.tail (.dispatch dispatches [] tasks now (.acquired passes) nofun)
  rw [Option.map_none, Option.toList_none, List.append_nil] at hacquired
  have hmade := hacquired.tail (.dispatch dispatches [] tasks now .dirMade nofun)
  rw [Option.map_none, Option.toList_none, List.append_nil] at hmade
  have hopened := hmade.tail (.dispatch dispatches [] tasks now .logOpened
    fun path h => Option.some.inj h ▸ free)
  rw [Option.map_none, Option.toList_none, List.append_nil] at hopened
  exact hopened.tail (.dispatch dispatches [] tasks _ .handedOver nofun)

/-- A minute after the first alert. -/
def laterFatal : Alert := { registerFatal with firedAt := Duration.seconds 60 }

/-- Two fatal alerts, each with its task. -/
theorem worktrees_exclusive_two : ∃ s,
    IncidentReachable asciiTables registerSink 2 [] s ∧
    s.loop.liveTasks = [registerSink.task registerFatal "/srv/sacredvote",
      registerSink.task laterFatal "/srv/sacredvote"] ∧
    s.loop.liveTasks.Pairwise fun first second =>
      first.logPath ≠ second.logPath ∧ first.worktreePath ≠ second.worktreePath := by
  have hstart : IncidentReachable asciiTables registerSink 2 [] ⟨start 2, []⟩ := .refl
  have hfirst := hstart.dispatched registerFatal_passes List.not_mem_nil
  have hlater : registerSink.preflight asciiTables laterFatal = .ok "/srv/sacredvote" :=
    registerFatal_passes
  have hsecond := hfirst.dispatched hlater (by decide +kernel)
  exact ⟨_, hsecond, rfl, (worktrees_exclusive asciiTables registerSink 2 [] _ hsecond).2⟩

end Watchtower.AutoClaude
