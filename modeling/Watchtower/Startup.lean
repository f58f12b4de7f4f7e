import Watchtower.Sinks
import Watchtower.Staleness

/-!
# Starting the daemon

What `main` does before its loop: the names in the environment, the configuration of each
sink from it, and the errors that keep the daemon from starting. The runtime has come up, and
all variables are Unicode: `std::env::vars` panics on others. The HTTP client, the clock and
the start of `journalctl` are inputs.
-/

namespace Watchtower.Startup

open AutoClaude Email Heartbeat Ntfy Parse RateLimit Sinks

/-- The environment of the process, of Unicode names and values, each name once, in the order
it is gone through. -/
structure Env where
  vars : List (String × String)
  distinct : (vars.map Prod.fst).Nodup

/-- `std::env::var` -/
def Env.var (env : Env) (name : String) : Option String := env.vars.lookup name

/-- `split(',')`, `trim` and `filter` over a list of names. -/
def names (text : String) : List String :=
  ((text.toList.splitOn ',').map fun piece => trim (String.ofList piece)).filter (· ≠ "")

section Ntfy

def defaultRatePerMin : Nat := 10

/-- `NtfySink::from_env_with`. The limit of requests is a 32-bit number. -/
def ntfyFromEnvWith (getenv : String → Option String) (client : Except String Unit)
    (now : Instant) : Except NtfyConfigError (Option NtfySink) :=
  match getenv "NTFY_URL" with
  | none => .ok none
  | some url =>
    let topic := (getenv "WATCHTOWER_NTFY_TOPIC").getD "sacredvote-watchtower"
    if topic = "" then .ok none
    else
      let token := (getenv "NTFY_TOKEN").filter (· ≠ "")
      let ratePerMin := ((getenv "WATCHTOWER_NTFY_RATE_PER_MIN").bind (parseUnsigned 32)).getD
        defaultRatePerMin
      (NtfySink.new url topic token ratePerMin client now).map some

/-- `Display` of the error. -/
def ntfyErrorText : NtfyConfigError → String
  | .invalidUrl url => "invalid ntfy URL: " ++ url
  | .clientBuild e => "HTTP client build failed: " ++ e

end Ntfy

section Email

def defaultFrom : String := "alerts@sacredvote.org"
def defaultMailBin : String := "mail"

inductive EmailConfigError where
  | noRecipient
  deriving DecidableEq, Repr

/-- `EmailSink::from_env_with`, which never fails. -/
def emailFromEnvWith (getenv : String → Option String) (now : Instant) :
    Except EmailConfigError (Option EmailSink) :=
  match getenv "WATCHTOWER_EMAIL_TO" with
  | none => .ok none
  | some toAddr =>
    if trim toAddr = "" then .ok none
    else
      let fromAddr := (getenv "WATCHTOWER_EMAIL_FROM").getD defaultFrom
      let bin := (getenv "WATCHTOWER_EMAIL_BIN").getD defaultMailBin
      .ok (some (.new toAddr fromAddr bin now))

/-- `Display` of the error. -/
def emailErrorText : EmailConfigError → String
  | .noRecipient => "WATCHTOWER_EMAIL_TO empty or unset"

end Email

section AutoClaude

def envEnable : String := "WATCHTOWER_AUTO_CLAUDE_ENABLE"
def envRules : String := "WATCHTOWER_AUTO_CLAUDE_RULES"
def envBin : String := "WATCHTOWER_AUTO_CLAUDE_BIN"
def envIncidentDir : String := "WATCHTOWER_AUTO_CLAUDE_INCIDENT_DIR"
def envWorktreeBase : String := "WATCHTOWER_AUTO_CLAUDE_WORKTREE_BASE"
def envMaxConcurrent : String := "WATCHTOWER_AUTO_CLAUDE_MAX_CONCURRENT"
def envProject : String := "WATCHTOWER_AUTO_CLAUDE_PROJECT_"

def defaultClaudeBin : String := "claude"
def defaultIncidentDir : String := "/var/lib/plausiden-watchtower/incidents"
def defaultWorktreeBase : String := "/var/lib/plausiden-watchtower/worktrees"
def defaultMaxConcurrent : Nat := 1

/-- The most permits that a semaphore can be made with. -/
def maxPermits : Nat := (2 ^ 64 - 1) / 8

inductive AutoClaudeConfigError where
  | emptyRules
  | badConcurrency (permits : Nat)
  | noProjects
  | emptyChainKey (name : String)
  deriving DecidableEq, Repr

/-- `Display` of the error. -/
def autoClaudeErrorText : AutoClaudeConfigError → String
  | .emptyRules => "WATCHTOWER_AUTO_CLAUDE_RULES is empty — refusing to enable a sink that " ++
      "would never fire"
  | .badConcurrency permits => "WATCHTOWER_AUTO_CLAUDE_MAX_CONCURRENT must be >= 1 (got " ++
      toString permits ++ ")"
  | .noProjects => "no WATCHTOWER_AUTO_CLAUDE_PROJECT_* env vars set — refusing to enable a " ++
      "sink with no project map"
  | .emptyChainKey name => "invalid project env var name " ++ name ++
      ": chain segment is empty"

/-- What is left of a text behind a beginning. -/
def stripBeginning (text beginning : String) : Option String :=
  if beginning.toList <+: text.toList then
    some (String.ofList (text.toList.drop beginning.toList.length))
  else none

/-- The loop over the variables. The map is the list of the insertions, the last one first. -/
def collectProjects (tables : TextTables) : List (String × String) → List (String × String) →
    Except AutoClaudeConfigError (List (String × String))
  | [], projects => .ok projects
  | (name, value) :: rest, projects =>
    match stripBeginning name envProject with
    | none => collectProjects tables rest projects
    | some suffix =>
      if suffix = "" then .error (.emptyChainKey name)
      else collectProjects tables rest ((tables.lowercase suffix, value) :: projects)

/-- A sink and the permits of its semaphore. -/
structure FixLoopConfig where
  sink : AutoClaudeSink
  permits : Nat

def enabled (env : Env) : Bool :=
  match env.var envEnable with
  | none => false
  | some value => value = "1" ∨ value = "true" ∨ value = "yes" ∨ value = "on"

def maxConcurrent (env : Env) : Nat :=
  ((env.var envMaxConcurrent).bind (parseUnsigned 64)).getD defaultMaxConcurrent

/-- `AutoClaudeSink::from_env`. There is no result where the semaphore panics. -/
def autoClaudeFromEnv (tables : TextTables) (env : Env) :
    Option (Except AutoClaudeConfigError (Option FixLoopConfig)) :=
  if enabled env = false then some (.ok none)
  else
    let allowedRules := names ((env.var envRules).getD "")
    if allowedRules = [] then some (.error .emptyRules)
    else
      let bin := (env.var envBin).getD defaultClaudeBin
      let incidentDir := (env.var envIncidentDir).getD defaultIncidentDir
      let worktreeBase := (env.var envWorktreeBase).getD defaultWorktreeBase
      if maxConcurrent env = 0 then some (.error (.badConcurrency (maxConcurrent env)))
      else
        match collectProjects tables env.vars [] with
        | .error e => some (.error e)
        | .ok projects =>
          if projects.isEmpty then some (.error .noProjects)
          else if maxPermits < maxConcurrent env then none
          else some (.ok (some ⟨⟨allowedRules, fun chain => projects.lookup chain, bin,
            incidentDir, worktreeBase⟩, maxConcurrent env⟩))

end AutoClaude

section Main

def defaultUnits : String :=
  "sacredvote,sacredvote-identity,sacredvote-zktls,sacredvote-webauthn," ++
    "sacredvote-crypto,sacredvote-analytics"

def unitsOf (env : Env) : List String := names ((env.var "WATCHTOWER_UNITS").getD defaultUnits)

/-- The command line of `journal::spawn`. -/
def journalCommand (env : Env) (units : List String) : Command where
  program := (env.var "JOURNALCTL_BIN").getD "journalctl"
  args := ["-f", "--output=json"] ++ units.flatMap fun unit => ["-u", unit]
  currentDir := none

/-- The variables that the heartbeat and its check read. -/
def Env.heartbeat (env : Env) : Heartbeat.Environment where
  heartbeatPath := env.var "WATCHTOWER_HEARTBEAT_PATH"
  heartbeatIntervalSecs := env.var "WATCHTOWER_HEARTBEAT_INTERVAL_SECS"
  heartbeatStaleSecs := env.var "WATCHTOWER_HEARTBEAT_STALE_SECS"
  ntfyUrl := env.var "NTFY_URL"
  ntfyTopic := env.var "WATCHTOWER_NTFY_TOPIC"
  ntfyToken := env.var "NTFY_TOKEN"

/-- What becomes of the steps that leave the process, where also `PATH` and the like come in,
and the instants the buckets are made at. -/
structure LaunchIo where
  client : Except String Unit
  ntfyNow : Instant
  emailNow : Instant
  journal : Except String Unit

/-- The daemon at the beginning of its loop. -/
structure Running where
  units : List String
  sinks : List Sink
  permits : Option Nat
  heartbeat : HeartbeatConfig
  journal : Command

inductive Launch where
  | refused (text : String)
  | panicked
  | running (daemon : Running)

/-- `main` up to its loop, in a runtime that has come up. -/
def launch (tables : TextTables) (env : Env) (io : LaunchIo) : Launch :=
  let units := unitsOf env
  if units = [] then .refused "WATCHTOWER_UNITS empty — refusing to start"
  else
    match ntfyFromEnvWith env.var io.client io.ntfyNow with
    | .error e => .refused ("ntfy sink misconfigured: " ++ ntfyErrorText e)
    | .ok ntfy =>
      match emailFromEnvWith env.var io.emailNow with
      | .error e => .refused ("email sink misconfigured: " ++ emailErrorText e)
      | .ok email =>
        match autoClaudeFromEnv tables env with
        | none => .panicked
        | some (.error e) => .refused ("auto-claude sink misconfigured: " ++ autoClaudeErrorText e)
        | some (.ok fixLoop) =>
          let sinks := .logger :: ((ntfy.map Sink.ntfy).toList ++ (email.map Sink.email).toList ++
            (fixLoop.map fun config => Sink.autoClaude config.sink).toList)
          if sinks.isEmpty then .refused "no alert sinks configured — refusing to start"
          else
            match io.journal with
            | .error e => .refused ("failed to spawn journalctl: " ++ e)
            | .ok () => .running ⟨units, sinks, fixLoop.map FixLoopConfig.permits,
                HeartbeatConfig.fromEnv env.heartbeat, journalCommand env units⟩

end Main

section Names

/-- A name as it stands in a list: without blanks around it or a comma in it. -/
structure IsName (name : String) : Prop where
  nonempty : name ≠ ""
  trimmed : trim name = name
  no_comma : ',' ∉ name.toList

theorem trim_toList (s : String) :
    (trim s).toList = (s.toList.dropWhile isWhitespace).rdropWhile isWhitespace :=
  String.toList_ofList

/-- Trimming at the end leaves the first character, or nothing. -/
theorem trim_trim (s : String) : trim (trim s) = trim s := by
  apply String.toList_injective
  rw [trim_toList, trim_toList]
  have hstart : ((s.toList.dropWhile isWhitespace).rdropWhile isWhitespace).dropWhile
      isWhitespace = (s.toList.dropWhile isWhitespace).rdropWhile isWhitespace := by
    rw [List.dropWhile_eq_self_iff]
    intro hlen
    have hclean := List.dropWhile_eq_self_iff.mp
      (List.dropWhile_idempotent (p := isWhitespace) (l := s.toList))
    have hbegins := List.rdropWhile_prefix isWhitespace (s.toList.dropWhile isWhitespace)
    have hfull := Nat.lt_of_lt_of_le hlen hbegins.length_le
    rw [hbegins.getElem hlen]
    exact hclean hfull
  rw [hstart, List.rdropWhile_idempotent]

theorem mem_of_mem_trim {s : String} {c : Char} (h : c ∈ (trim s).toList) : c ∈ s.toList := by
  rw [trim_toList] at h
  exact (List.dropWhile_suffix _).subset ((List.rdropWhile_prefix _ _).subset h)

theorem isName_of_mem {text : String} : ∀ name ∈ names text, IsName name := by
  intro name mem
  obtain ⟨mem, hne⟩ := List.mem_filter.mp mem
  obtain ⟨piece, hpiece, rfl⟩ := List.mem_map.mp mem
  refine ⟨of_decide_eq_true hne, trim_trim _, fun h => ?_⟩
  have hcomma := mem_of_mem_trim h
  rw [String.toList_ofList] at hcomma
  exact Text.not_mem_of_mem_splitOn piece hpiece hcomma

/-- A list of names comes back from its text. -/
theorem names_intercalate {list : List String} (h : ∀ name ∈ list, IsName name) :
    names (",".intercalate list) = list := by
  cases list with
  | nil => decide
  | cons first rest =>
    have hsplit : (",".intercalate (first :: rest)).toList.splitOn ',' =
        (first :: rest).map String.toList := by
      rw [String.toList_intercalate]
      refine List.splitOn_intercalate ',' (fun piece hpiece => ?_) (by simp)
      obtain ⟨name, mem, rfl⟩ := List.mem_map.mp hpiece
      exact (h name mem).no_comma
    have hsame : ((first :: rest).map String.toList).map
        (fun piece => trim (String.ofList piece)) = first :: rest := by
      rw [List.map_map]
      refine (List.map_congr_left fun name mem => ?_).trans (List.map_id _)
      rw [Function.comp_apply, String.ofList_toList, (h name mem).trimmed]
      rfl
    rw [names, hsplit, hsame, List.filter_eq_self]
    exact fun name mem => decide_eq_true (h name mem).nonempty

end Names

section Projects

theorem stripBeginning_eq_some {text beginning suffix : String} :
    stripBeginning text beginning = some suffix ↔ text = beginning ++ suffix := by
  rw [stripBeginning, ← String.toList_inj, String.toList_append]
  constructor
  · intro h
    rw [Option.ite_none_right_eq_some] at h
    obtain ⟨⟨rest, hrest⟩, hsuffix⟩ := h
    rw [← hrest, List.drop_left] at hsuffix
    rw [← Option.some.inj hsuffix, String.toList_ofList, hrest]
  · intro h
    rw [h, if_pos (List.prefix_append _ _), List.drop_left, String.ofList_toList]

variable (tables : TextTables)

/-- The entry that a variable gives the map. -/
def projectEntry (entry : String × String) : Option (String × String) :=
  (stripBeginning entry.1 envProject).map fun suffix => (tables.lowercase suffix, entry.2)

theorem projectEntry_eq_some {entry project : String × String} :
    projectEntry tables entry = some project ↔ ∃ suffix, entry.1 = envProject ++ suffix ∧
      project = (tables.lowercase suffix, entry.2) := by
  rw [projectEntry, Option.map_eq_some_iff]
  constructor
  · rintro ⟨suffix, hsuffix, rfl⟩
    exact ⟨suffix, stripBeginning_eq_some.mp hsuffix, rfl⟩
  · rintro ⟨suffix, hsuffix, rfl⟩
    exact ⟨suffix, stripBeginning_eq_some.mpr hsuffix, rfl⟩

/-- The loop ends with a map unless a variable has nothing behind the common beginning. -/
theorem collectProjects_cases (vars projects : List (String × String)) :
    ((∀ entry ∈ vars, entry.1 ≠ envProject) ∧ collectProjects tables vars projects =
      .ok ((vars.filterMap (projectEntry tables)).reverse ++ projects)) ∨
    ((∃ entry ∈ vars, entry.1 = envProject) ∧
      collectProjects tables vars projects = .error (.emptyChainKey envProject)) := by
  induction vars generalizing projects with
  | nil => exact .inl ⟨fun entry mem => absurd mem List.not_mem_nil, rfl⟩
  | cons entry rest ih =>
    obtain ⟨name, value⟩ := entry
    rw [collectProjects]
    cases hstrip : stripBeginning name envProject with
    | none =>
      have hne : name ≠ envProject := by
        rintro rfl
        rw [stripBeginning_eq_some.mpr (String.append_empty).symm] at hstrip
        cases hstrip
      have hentry : projectEntry tables (name, value) = none := by rw [projectEntry, hstrip]; rfl
      rw [List.filterMap_cons_none hentry]
      rcases ih projects with ⟨hall, hok⟩ | ⟨⟨entry, mem, hbad⟩, herror⟩
      · exact .inl ⟨List.forall_mem_cons.mpr ⟨hne, hall⟩, hok⟩
      · exact .inr ⟨⟨entry, List.mem_cons_of_mem _ mem, hbad⟩, herror⟩
    | some suffix =>
      have hname := stripBeginning_eq_some.mp hstrip
      dsimp only
      by_cases hempty : suffix = ""
      · subst hempty
        rw [String.append_empty] at hname
        rw [if_pos rfl, hname]
        exact .inr ⟨⟨_, List.mem_cons_self, rfl⟩, rfl⟩
      · have hne : name ≠ envProject := by
          rw [hname]
          intro h
          exact hempty ((String.append_right_inj _).mp (h.trans String.append_empty.symm))
        have hentry : projectEntry tables (name, value) =
            some (tables.lowercase suffix, value) := by rw [projectEntry, hstrip]; rfl
        rw [if_neg hempty, List.filterMap_cons_some hentry, List.reverse_cons, List.append_assoc]
        rcases ih ((tables.lowercase suffix, value) :: projects) with
          ⟨hall, hok⟩ | ⟨⟨entry, mem, hbad⟩, herror⟩
        · exact .inl ⟨List.forall_mem_cons.mpr ⟨hne, hall⟩, hok⟩
        · exact .inr ⟨⟨entry, List.mem_cons_of_mem _ mem, hbad⟩, herror⟩

end Projects

end Watchtower.Startup
