import Watchtower.Launch
import Watchtower.NoticeRates
import Watchtower.Worktrees

/-!
# What the fix loop may do

From the environment through the main loop to the commands of a task: a task has the rule of
its alert listed, the chain of its sample mapped to the project, and runs in a directory of
its own directly below the worktree base.
-/

namespace Watchtower.Startup

open AutoClaude Chrono Classify Machine Parse Sinks

section Slug
variable {alert : Alert}

/-- The slug of an alert is one component of a path, whatever its time and key are. -/
theorem incidentSlug_component (named : ∀ c ∈ alert.rule.toList, wordChar c = true) :
    IsComponent (incidentSlug alert) := by
  have hslash : ∀ text : List Char, (∀ c ∈ text, wordChar c = true) → '/' ∉ text :=
    fun text word h => absurd (word '/' h) (by decide)
  have hhyphen : '-' ∈ (incidentSlug alert).toList := by
    rw [incidentSlug_toList]
    simp
  have hnot : ∀ other : String, '-' ∉ other.toList → incidentSlug alert ≠ other := by
    rintro other hother rfl
    exact hother hhyphen
  refine ⟨hnot "" (by decide), ?_, hnot "." (by decide), hnot ".." (by decide)⟩
  rw [incidentSlug_toList]
  simp only [List.mem_append, List.mem_cons, not_or]
  exact ⟨⟨no_slash_compactTime _, by decide, hslash _ named⟩, by decide,
    hslash _ (safeKey_word alert.key)⟩

end Slug

section Task
variable {tables : TextTables} {sink : AutoClaudeSink}

/-- The only dispatch that has a task is one whose alert passes the preflight. -/
theorem task_of_dispatch {available : Nat} {call : Dispatch} {task : Task}
    (h : (sink.dispatch tables available call).2.task = some task) :
    ∃ project, sink.preflight tables call.alert = .ok project ∧
      task = sink.task call.alert project := by
  cases hpreflight : sink.preflight tables call.alert with
  | error reason =>
    rw [AutoClaudeSink.dispatch, hpreflight] at h
    cases h
  | ok project =>
    rw [sink.dispatch_of_preflight tables hpreflight] at h
    cases available with
    | zero => cases h
    | succ left =>
      have spawned := sink.spawnClaude_cases tables left call project
      generalize sink.spawnClaude tables (left + 1) call project = done at spawned h
      cases spawned with
      | mkdirFailed _ => cases h
      | openFailed _ _ => cases h
      | handedOver _ _ => exact ⟨project, rfl, (Option.some.inj h).symm⟩

/-- A project of the map is the value of a variable for the chain. -/
theorem mapped_of_projects {env : Env} {chain project : String}
    (h : (fixLoopConfig tables env).sink.projects chain = some project) :
    ∃ suffix, (envProject ++ suffix, project) ∈ env.vars ∧ tables.lowercase suffix = chain := by
  obtain ⟨front, back, hlist, _⟩ := List.lookup_eq_some_iff.mp h
  have mem : (chain, project) ∈ (env.vars.filterMap (projectEntry tables)).reverse := by
    rw [hlist]
    simp
  obtain ⟨entry, hentry, hsome⟩ := List.mem_filterMap.mp (List.mem_reverse.mp mem)
  obtain ⟨suffix, hname, hpair⟩ := (projectEntry_eq_some tables).mp hsome
  obtain ⟨rfl, rfl⟩ := Prod.mk.inj hpair
  exact ⟨suffix, hname ▸ hentry, rfl⟩

theorem preflight_ok {alert : Alert} {project : String}
    (h : sink.preflight tables alert = .ok project) :
    alert.rule ∈ sink.allowedRules ∧ ∃ e chain, alert.sampleEvent = some e ∧
      e.chain = some chain ∧ sink.projects (tables.lowercase chain) = some project := by
  rw [AutoClaudeSink.preflight] at h
  split at h
  · next hrule =>
    refine ⟨hrule, ?_⟩
    cases hchain : alert.sampleEvent.bind StructuredEvent.chain with
    | none =>
      rw [hchain] at h
      cases h
    | some chain =>
      rw [hchain] at h
      dsimp only at h
      obtain ⟨e, he, hsome⟩ := Option.bind_eq_some_iff.mp hchain
      refine ⟨e, chain, he, hsome, ?_⟩
      cases hproject : sink.projects (tables.lowercase chain) with
      | none =>
        rw [hproject] at h
        cases h
      | some found =>
        rw [hproject] at h
        cases h
        rfl
  · cases h

/-- A task starts at most its two commands. -/
theorem mem_run {task : Task} {io : TaskIo} {command : Command} (mem : command ∈ (task.run io).1) :
    command = task.gitCommand ∨ command = task.claudeCommand := by
  rw [Task.run] at mem
  split at mem
  · exact absurd mem List.not_mem_nil
  · split at mem
    · exact .inl (List.mem_singleton.mp mem)
    · exact .inl (List.mem_singleton.mp mem)
    · split at mem
      · simpa using mem
      · simpa using mem

/-- A sink that tries a fix does so as it was configured. -/
theorem autoClaude_of_fixed {sink : Sink} {past : List Offer} {offer : Offer} {done : Dispatched}
    (h : .fixed done = ((after (Sink.dispatch tables) sink past).dispatch tables offer).2) :
    ∃ s, sink = .autoClaude s ∧
      done = (s.dispatch tables offer.occasion.available offer.fix).2 := by
  have hkept : ∀ s, after (Sink.dispatch tables) (.autoClaude s) past = .autoClaude s := fun s =>
    after_invariant (Sink.dispatch tables) (P := fun t => t = .autoClaude s) rfl
      (fun t _ ht => by rw [ht]; rfl) past
  have hname : (after (Sink.dispatch tables) sink past).name = sink.name := after_name sink past
  cases hafter : after (Sink.dispatch tables) sink past with
  | logger => rw [hafter] at h; cases h
  | ntfy s => rw [hafter] at h; cases h
  | email s => rw [hafter] at h; cases h
  | autoClaude s =>
    rw [hafter] at h hname
    cases sink with
    | autoClaude t =>
      rw [hkept t] at hafter
      obtain rfl := Sink.autoClaude.inj hafter
      exact ⟨t, rfl, Deed.fixed.inj h⟩
    | logger => simp [Sink.name] at hname
    | ntfy t => simp [Sink.name] at hname
    | email t => simp [Sink.name] at hname

end Task

/-- A task is allowed by the environment for an alert: the fix loop is on, the rule is listed,
and a variable maps the chain of the sample to the project. -/
structure Authorised (tables : TextTables) (env : Env) (alert : Alert) (task : Task) : Prop where
  on : enabled env = true
  listed : alert.rule ∈ names ((env.var envRules).getD "")
  mapped : ∃ e chain suffix, alert.sampleEvent = some e ∧ e.chain = some chain ∧
    (envProject ++ suffix, task.project) ∈ env.vars ∧
    tables.lowercase suffix = tables.lowercase chain

/-- The directory that the first command of a task makes, for a daemon that runs in `cwd`:
`git -C` goes to the project before it reads the path. -/
def madeIn (cwd : String) (task : Task) : String :=
  join (join cwd task.project) task.worktreePath

/-- The directory that the child process is started in. -/
def startedIn (cwd : String) (task : Task) : String := join cwd task.worktreePath

/-- The commands of a task are the worktree and the child in it, and the path of the worktree
lies directly below a base. If the base is absolute, this is the directory that is made and
the one that the child is started in. -/
structure Confined (base bin : String) (task : Task) : Prop where
  commands : ∀ io command, command ∈ (task.run io).1 →
    command = ⟨"git", ["-C", task.project, "worktree", "add", "--detach", task.worktreePath],
      none⟩ ∨
    command = ⟨bin, ["-p", task.prompt, "--add-dir", task.worktreePath], some task.worktreePath⟩
  below : IsComponent task.slug ∧ ∃ gap, (gap = "" ∨ gap = "/") ∧
    task.worktreePath = base ++ gap ++ task.slug
  there : base.toList.head? = some '/' → ∀ cwd,
    madeIn cwd task = task.worktreePath ∧ startedIn cwd task = task.worktreePath

/-- An absolute path is not changed by what it is joined to. -/
theorem join_absolute (cwd : String) {path : String} (absolute : path.toList.head? = some '/') :
    join cwd path = path := by
  rw [join, if_pos absolute]

/-- Below an absolute base both commands mean the same directory. -/
theorem worktree_there {base gap : String} {task : Task}
    (below : task.worktreePath = base ++ gap ++ task.slug)
    (absolute : base.toList.head? = some '/') (cwd : String) :
    madeIn cwd task = task.worktreePath ∧ startedIn cwd task = task.worktreePath := by
  have hworktree : task.worktreePath.toList.head? = some '/' := by
    obtain ⟨others, hbase⟩ := List.head?_eq_some_iff.mp absolute
    rw [below, String.toList_append, String.toList_append, hbase, List.cons_append,
      List.cons_append, List.head?_cons]
  exact ⟨join_absolute _ hworktree, join_absolute _ hworktree⟩

section Loop
variable (tables : TextTables) (u : UnicodeClasses) (env : Env) (io : LaunchIo)

/-- Every task that a started daemon spawns is authorised by the environment for one of the
classifier's alerts, and confined to its worktree. -/
theorem fix_tasks_authorised (daemon : Running) (started : launch tables env io = .running daemon)
    (arrivals : List Arrival) (deeds : List Deed) (done : Dispatched) (task : Task)
    (round : deeds ∈ (mainLoop tables u .new daemon.sinks arrivals).rounds)
    (mem : .fixed done ∈ deeds) (spawned : done.task = some task) :
    ∃ alert ∈ Classifier.new.alerts
        (parsedCalls u (arrivals.map fun arrival => (arrival.raw, arrival.now))),
      task.slug = incidentSlug alert ∧ task.prompt = buildPrompt alert ∧
      Authorised tables env alert task ∧
      Confined ((env.var envWorktreeBase).getD defaultWorktreeBase)
        ((env.var envBin).getD defaultClaudeBin) task := by
  have launched := launched_of_running started
  rw [(mainLoop_eq tables u _ _ _).2.1] at round
  obtain ⟨sink, hsink, hdeed⟩ := Bank.mem_offerAll_emitted round mem
  obtain ⟨past, offer, later, hoffers, hout⟩ := (mem_outputs _).mp hdeed
  obtain ⟨s, rfl, rfl⟩ := autoClaude_of_fixed hout
  obtain ⟨hon, rfl⟩ := launched.autoClaude_mem hsink
  obtain ⟨project, hpreflight, rfl⟩ := task_of_dispatch spawned
  obtain ⟨hrule, e, chain, hsample, hchain, hproject⟩ := preflight_ok hpreflight
  have halert : offer.alert ∈ Classifier.new.alerts
      (parsedCalls u (arrivals.map fun arrival => (arrival.raw, arrival.now))) := by
    rw [← offersOf_alerts, hoffers]
    simp
  obtain ⟨rule, hbuiltin, hname⟩ := rule_of_mem_alerts builtinTable halert
  have named : ∀ c ∈ offer.alert.rule.toList, wordChar c = true := hname ▸ name_word hbuiltin
  have component := incidentSlug_component named
  have hgap := join_component component ((env.var envWorktreeBase).getD defaultWorktreeBase)
  obtain ⟨suffix, hvar, hlower⟩ := mapped_of_projects hproject
  refine ⟨offer.alert, halert, rfl, rfl,
    ⟨hon, hrule, e, chain, suffix, hsample, hchain, hvar, hlower⟩, ?_, ⟨component, hgap⟩, ?_⟩
  · intro taskIo command hcommand
    exact mem_run hcommand
  · obtain ⟨gap, _, hpath⟩ := hgap
    exact worktree_there hpath

end Loop

def registerArrival : Arrival where
  raw := "[12:00] [FATAL] [storage] chain=register disk full"
  now := 0
  occasion _ := atStart

/-- The deed is the spawn of a task with a slug. -/
def spawnsSlug (slug : String) : Deed → Bool
  | .fixed done => done.task.any fun task => task.slug = slug
  | _ => false

theorem fix_tasks_authorised_register : ∃ daemon deeds done task,
    launch asciiTables registerEnv calmIo = .running daemon ∧
    deeds ∈ (mainLoop asciiTables .ascii .new daemon.sinks [registerArrival]).rounds ∧
    .fixed done ∈ deeds ∧ done.task = some task ∧
    task.slug = "19700101T000000Z-fatal_any-any" ∧
    ∃ alert, task.slug = incidentSlug alert ∧ Authorised asciiTables registerEnv alert task := by
  obtain ⟨daemon, hdaemon, hspawns⟩ : ∃ daemon,
      launch asciiTables registerEnv calmIo = .running daemon ∧
      ((mainLoop asciiTables .ascii .new daemon.sinks [registerArrival]).rounds.any fun deeds =>
        deeds.any (spawnsSlug "19700101T000000Z-fatal_any-any")) = true :=
    ⟨_, rfl, by decide +kernel⟩
  obtain ⟨deeds, hdeeds, hany⟩ := List.any_eq_true.mp hspawns
  obtain ⟨deed, hdeed, hslug⟩ := List.any_eq_true.mp hany
  cases deed with
  | fixed done =>
    obtain ⟨task, htask, hslug⟩ := (Option.any_eq_true _ _).mp hslug
    obtain ⟨alert, _, hsame, _, authorised, _⟩ := fix_tasks_authorised asciiTables .ascii
      registerEnv calmIo daemon hdaemon [registerArrival] deeds done task hdeeds hdeed htask
    exact ⟨daemon, deeds, done, task, hdaemon, hdeeds, hdeed, htask, of_decide_eq_true hslug,
      alert, hsame, authorised⟩
  | logged json result => cases hslug
  | pushed now done => cases hslug
  | mailed now done => cases hslug

end Watchtower.Startup
