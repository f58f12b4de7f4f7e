import Watchtower.AutoClaude

/-!
# Broken transcripts

Three steps of the transcript lie between the permit and the task. A failure of the first
two returns from the dispatch; a failure of the third is not told in time.
-/

namespace Watchtower.AutoClaude

open Classify Email Parse

variable (tables : TextTables) (sink : AutoClaudeSink)

/-- What becomes of a dispatch that holds a permit, in the order of its steps: the first
failure is returned and the permit given back, else the task is spawned. -/
inductive TranscriptCase (call : Dispatch) (project : String) (left : Nat) :
    Nat × Dispatched → Prop where
  | mkdirFailed {e : String} : call.io.mkdir = .error e → TranscriptCase call project left
      (left + 1, ⟨none, none, .error (.failed ("incident_dir mkdir: " ++ e))⟩)
  | openFailed {e : String} : call.io.mkdir = .ok () → call.io.opened = .error e →
      TranscriptCase call project left (left + 1, ⟨none, none, .error (.failed
        ("open incident log " ++ tables.quoted (sink.logPath (incidentSlug call.alert)) ++
          ": " ++ e))⟩)
  | handedOver : call.io.mkdir = .ok () → call.io.opened = .ok () →
      TranscriptCase call project left
        (left, ⟨some (sink.logPath (incidentSlug call.alert),
            incidentHeader call.alert project call.started),
          some (sink.task call.alert project), .ok ()⟩)

theorem AutoClaudeSink.spawnClaude_cases (left : Nat) (call : Dispatch) (project : String) :
    TranscriptCase tables sink call project left
      (sink.spawnClaude tables (left + 1) call project) := by
  cases hmkdir : call.io.mkdir with
  | error e =>
    simp only [spawnClaude, openIncidentLog, hmkdir]
    exact .mkdirFailed hmkdir
  | ok _ =>
    cases hopened : call.io.opened with
    | error e =>
      simp only [spawnClaude, openIncidentLog, hmkdir, hopened]
      exact .openFailed hmkdir hopened
    | ok _ =>
      simp only [spawnClaude, openIncidentLog, hmkdir, hopened, writeAll]
      exact .handedOver hmkdir hopened

theorem AutoClaudeSink.dispatch_of_preflight {call : Dispatch} {project : String}
    (passes : sink.preflight tables call.alert = .ok project) (available : Nat) :
    sink.dispatch tables available call = sink.spawnClaude tables available call project := by
  rw [dispatch, passes]

/-- The dispatch hands the alert to a task, which tries the worktree and, in it, the child
process. -/
def GoesOn (alert : Alert) (project : String) (done : Dispatched) : Prop :=
  ∃ task, done.task = some task ∧ ∀ io : TaskIo, io.base = .ok () →
    (⟨"git", ["-C", project, "worktree", "add", "--detach",
      join sink.worktreeBase (incidentSlug alert)], none⟩ : Command) ∈ (task.run io).1 ∧
    (io.git = .ok true → (⟨sink.bin, ["-p", buildPrompt alert, "--add-dir",
      join sink.worktreeBase (incidentSlug alert)],
        some (join sink.worktreeBase (incidentSlug alert))⟩ : Command) ∈ (task.run io).1)

theorem task_goesOn (alert : Alert) (project : String) (header : Option (String × String))
    (result : Except SinkError Unit) :
    GoesOn sink alert project ⟨header, some (sink.task alert project), result⟩ := by
  refine ⟨_, rfl, fun io hbase => ?_⟩
  cases hgit : io.git with
  | error e => simp [Task.run, hbase, hgit, Task.gitCommand, Task.worktreePath,
      AutoClaudeSink.task]
  | ok success =>
    cases success with
    | false => simp [Task.run, hbase, hgit, Task.gitCommand, Task.worktreePath,
        AutoClaudeSink.task]
    | true =>
      cases hclaude : io.claude with
      | error e => simp [Task.run, hbase, hgit, hclaude, Task.gitCommand, Task.claudeCommand,
          Task.worktreePath, AutoClaudeSink.task]
      | ok _ => simp [Task.run, hbase, hgit, hclaude, Task.gitCommand, Task.claudeCommand,
          Task.worktreePath, AutoClaudeSink.task]

/-- With a permit free, an alert that passes the preflight goes on exactly if its transcript
can be created, whatever becomes of the header. -/
theorem transcript_gate_iff (available : Nat) (call : Dispatch) (project : String)
    (passes : sink.preflight tables call.alert = .ok project) (free : 0 < available) :
    GoesOn sink call.alert project (sink.dispatch tables available call).2 ↔
      call.io.mkdir = .ok () ∧ call.io.opened = .ok () := by
  obtain ⟨left, rfl⟩ := Nat.exists_eq_succ_of_ne_zero (Nat.pos_iff_ne_zero.mp free)
  rw [sink.dispatch_of_preflight tables passes]
  have lost : ∀ {n : Nat} {result}, ¬ GoesOn sink call.alert project
      (n, (⟨none, none, result⟩ : Dispatched)).2 := by
    rintro n result ⟨task, htask, _⟩
    cases htask
  have spawned := sink.spawnClaude_cases tables left call project
  generalize sink.spawnClaude tables (left + 1) call project = done at spawned ⊢
  cases spawned with
  | mkdirFailed hmkdir => exact iff_of_false lost fun all => by simp [hmkdir] at all
  | openFailed _ hopened => exact iff_of_false lost fun all => by simp [hopened] at all
  | handedOver hmkdir hopened =>
    exact iff_of_true (task_goesOn sink call.alert project _ _) ⟨hmkdir, hopened⟩

def registerFatal : Alert where
  severity := .page
  rule := "fatal_any"
  key := "any"
  count := 1
  windowSecs := 86400
  sampleEvent := some {
    level := .fatal
    source := "storage"
    chain := some "register"
    rid := none
    step := none
    message := "chain=register disk full"
    raw := "[3 PM] [FATAL] [storage] chain=register disk full" }
  firedAt := 0

def registerSink : AutoClaudeSink where
  allowedRules := ["fatal_any"]
  projects chain := if chain = "register" then some "/srv/sacredvote" else none
  bin := "claude"
  incidentDir := "/var/lib/plausiden-watchtower/incidents"
  worktreeBase := "/var/lib/plausiden-watchtower/worktrees"

/-- The texts of these alerts are ASCII without quotes. -/
def asciiTables : TextTables where
  lowercase text := String.ofList (text.toList.map Char.toLower)
  quoted path := "\"" ++ path ++ "\""

theorem registerFatal_passes :
    registerSink.preflight asciiTables registerFatal = .ok "/srv/sacredvote" := by
  decide

/-- The disk is full when the header is written. -/
theorem transcript_gate_iff_register :
    GoesOn registerSink registerFatal "/srv/sacredvote" (registerSink.dispatch asciiTables 1
      ⟨registerFatal, ⟨.ok (), .ok (), .error "disk full"⟩, 0⟩).2 :=
  (transcript_gate_iff asciiTables registerSink 1
    ⟨registerFatal, ⟨.ok (), .ok (), .error "disk full"⟩, 0⟩ "/srv/sacredvote"
    registerFatal_passes (by decide)).mpr ⟨rfl, rfl⟩

/-- Each of the two failures alone swallows the alert. -/
theorem broken_transcript_swallows_alert :
    ¬ (∀ (tables : TextTables) (sink : AutoClaudeSink) (available : Nat) (call : Dispatch)
      (project : String), sink.preflight tables call.alert = .ok project → 0 < available →
      GoesOn sink call.alert project (sink.dispatch tables available call).2) ∧
    ∀ io ∈ ([⟨.error "disk full", .ok (), .ok ()⟩, ⟨.ok (), .error "file exists", .ok ()⟩] :
        List TranscriptIo),
      (registerSink.dispatch asciiTables 1 ⟨registerFatal, io, 0⟩).2.task = none := by
  have hlost : ∀ io ∈ ([⟨.error "disk full", .ok (), .ok ()⟩,
      ⟨.ok (), .error "file exists", .ok ()⟩] : List TranscriptIo),
      (registerSink.dispatch asciiTables 1 ⟨registerFatal, io, 0⟩).2.task = none := by
    simp [AutoClaudeSink.dispatch, registerFatal_passes, AutoClaudeSink.spawnClaude,
      AutoClaudeSink.openIncidentLog]
  refine ⟨fun all => ?_, hlost⟩
  obtain ⟨task, htask, _⟩ := all asciiTables registerSink 1
    ⟨registerFatal, ⟨.error "disk full", .ok (), .ok ()⟩, 0⟩ "/srv/sacredvote"
    registerFatal_passes (by decide)
  rw [hlost _ List.mem_cons_self] at htask
  cases htask

end Watchtower.AutoClaude
