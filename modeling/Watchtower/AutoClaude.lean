import Watchtower.Email
import Watchtower.ParsedAlerts

/-!
# The fix loop

`AutoClaudeSink::dispatch`: the preflight, a permit, the transcript file with its header,
and the background task that takes the permit along, adds a worktree and spawns the child
process. Every step that asks the file system or starts a process takes its outcome as an
input. Paths are texts.
-/

namespace Watchtower.AutoClaude

open Chrono Classify Email Parse

/-- What the standard library reads off its Unicode tables: the lower case of a text, and
the quoted form of a path. -/
structure TextTables where
  lowercase : String → String
  quoted : String → String

structure AutoClaudeSink where
  allowedRules : List String
  projects : String → Option String
  bin : String
  incidentDir : String
  worktreeBase : String

/-- `Path::join` -/
def join (base name : String) : String :=
  if name.toList.head? = some '/' then name
  else if base = "" ∨ base.toList.getLast? = some '/' then base ++ name
  else base ++ "/" ++ name

/-- The date and time without separators, in whole seconds. -/
def compactTime (t : DateTime) : String :=
  let c := t.civil
  yearText c.year ++ padded 2 c.month ++ padded 2 c.day ++ "T" ++
    padded 2 c.hour ++ padded 2 c.minute ++ padded 2 c.second ++ "Z"

def safeKey (key : String) : String :=
  String.ofList (key.toList.map fun c => if c.isAlphanum then c else '_')

def incidentSlug (alert : Alert) : String :=
  compactTime alert.firedAt ++ "-" ++ alert.rule ++ "-" ++ safeKey alert.key

def buildPrompt (alert : Alert) : String :=
  let sampleChain := (alert.sampleEvent.bind StructuredEvent.chain).getD "unknown"
  let sampleStep := (alert.sampleEvent.bind StructuredEvent.step).getD "unknown"
  let sampleRid := (alert.sampleEvent.bind StructuredEvent.rid).getD "unknown"
  let sampleMsg := (alert.sampleEvent.map StructuredEvent.message).getD "(no sample message)"
  "Watchtower alert fired and you are being asked to triage.\n\n" ++
  "- rule:        " ++ alert.rule ++ "\n" ++
  "- key:         " ++ alert.key ++ "\n" ++
  "- count:       " ++ toString alert.count ++ " events in " ++
    toString alert.windowSecs ++ "s\n" ++
  "- chain:       " ++ sampleChain ++ "\n" ++
  "- step:        " ++ sampleStep ++ "\n" ++
  "- sample rid:  " ++ sampleRid ++ "\n" ++
  "- sample log:  " ++ sampleMsg ++ "\n\n" ++
  "You are running headless against an isolated git worktree. Do not push, " ++
  "do not commit unless the fix is small + obviously correct + tested. If " ++
  "diagnosis requires more context than the sample line, read the chain's " ++
  "structured logs at /var/log/sacredvote/<chain>.log on this VPS."

/-- The beginning of the transcript. -/
def incidentHeader (alert : Alert) (project : String) (started : DateTime) : String :=
  "# auto-claude incident\n" ++
  "# slug: " ++ incidentSlug alert ++ "\n" ++
  "# alert.rule: " ++ alert.rule ++ "\n" ++
  "# alert.key:  " ++ alert.key ++ "\n" ++
  "# project:    " ++ project ++ "\n" ++
  "# started:    " ++ DateTime.toRfc3339 started ++ "\n" ++
  "---\n"

/-- What becomes of the three steps of the transcript. -/
structure TranscriptIo where
  mkdir : Except String Unit
  opened : Except String Unit
  written : Except String Unit

/-- `write_all` on a new `tokio::fs::File`, of a text that its buffer holds: the file takes
the text over and writes it in the background. What becomes of that is told at the next call,
and the header has none. -/
def writeAll (_written : Except String Unit) : Except String Unit := .ok ()

/-- What the spawned task captures. -/
structure Task where
  bin : String
  project : String
  worktreeBase : String
  slug : String
  prompt : String
  logPath : String
  deriving DecidableEq, Repr

structure Command where
  program : String
  args : List String
  currentDir : Option String
  deriving DecidableEq, Repr

/-- What becomes of the steps of a task up to the child process. A git that ran has
succeeded or not. -/
structure TaskIo where
  base : Except String Unit
  git : Except String Bool
  claude : Except String Unit

namespace Task

def worktreePath (task : Task) : String := join task.worktreeBase task.slug

def gitCommand (task : Task) : Command where
  program := "git"
  args := ["-C", task.project, "worktree", "add", "--detach", task.worktreePath]
  currentDir := none

def claudeCommand (task : Task) : Command where
  program := task.bin
  args := ["-p", task.prompt, "--add-dir", task.worktreePath]
  currentDir := some task.worktreePath

/-- The commands the task tries to start, and whether the child process runs. -/
def run (task : Task) (io : TaskIo) : List Command × Bool :=
  match io.base with
  | .error _ => ([], false)
  | .ok () =>
    match io.git with
    | .error _ => ([task.gitCommand], false)
    | .ok false => ([task.gitCommand], false)
    | .ok true =>
      match io.claude with
      | .error _ => ([task.gitCommand, task.claudeCommand], false)
      | .ok () => ([task.gitCommand, task.claudeCommand], true)

end Task

/-- One call of `dispatch`: the alert, what becomes of the transcript and the time the
header is written at. -/
structure Dispatch where
  alert : Alert
  io : TranscriptIo
  started : DateTime

/-- What one dispatch hands over to be written, spawns and returns. -/
structure Dispatched where
  header : Option (String × String)
  task : Option Task
  result : Except SinkError Unit

namespace AutoClaudeSink
variable (tables : TextTables) (sink : AutoClaudeSink)

def preflight (alert : Alert) : Except String String :=
  if alert.rule ∈ sink.allowedRules then
    match alert.sampleEvent.bind StructuredEvent.chain with
    | none => .error "alert has no chain — cannot resolve project"
    | some chain =>
      match sink.projects (tables.lowercase chain) with
      | none => .error "chain not in WATCHTOWER_AUTO_CLAUDE_PROJECT_* map"
      | some project => .ok project
  else .error "rule not in WATCHTOWER_AUTO_CLAUDE_RULES whitelist"

def logPath (slug : String) : String := join sink.incidentDir (slug ++ ".log")

def openIncidentLog (slug : String) (io : TranscriptIo) : Except SinkError String :=
  match io.mkdir with
  | .error e => .error (.failed ("incident_dir mkdir: " ++ e))
  | .ok () =>
    match io.opened with
    | .error e => .error (.failed ("open incident log " ++ tables.quoted (sink.logPath slug) ++
        ": " ++ e))
    | .ok () => .ok (sink.logPath slug)

def task (alert : Alert) (project : String) : Task where
  bin := sink.bin
  project := project
  worktreeBase := sink.worktreeBase
  slug := incidentSlug alert
  prompt := buildPrompt alert
  logPath := sink.logPath (incidentSlug alert)

/-- The permits that are left, and what is done. A permit that is not moved into a task is
dropped when the function returns. -/
def spawnClaude (available : Nat) (call : Dispatch) (project : String) : Nat × Dispatched :=
  match available with
  | 0 => (0, ⟨none, none, .error (.failed "auto-claude concurrency cap reached")⟩)
  | left + 1 =>
    match sink.openIncidentLog tables (incidentSlug call.alert) call.io with
    | .error e => (left + 1, ⟨none, none, .error e⟩)
    | .ok path =>
      match writeAll call.io.written with
      | .error e => (left + 1, ⟨none, none, .error (.failed ("write header: " ++ e))⟩)
      | .ok () =>
        (left, ⟨some (path, incidentHeader call.alert project call.started),
          some (sink.task call.alert project), .ok ()⟩)

def dispatch (available : Nat) (call : Dispatch) : Nat × Dispatched :=
  match sink.preflight tables call.alert with
  | .error _ => (available, ⟨none, none, .ok ()⟩)
  | .ok project => sink.spawnClaude tables available call project

end AutoClaudeSink

end Watchtower.AutoClaude
