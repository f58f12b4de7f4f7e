import Watchtower.Startup

/-!
# When the daemon starts

The outcome of `main` up to its loop, decided by the environment, the HTTP client and
`journalctl`; and what can be relied on once the loop is reached.
-/

namespace Watchtower.Startup

open AutoClaude Heartbeat Ntfy Sinks

section Launch
variable (tables : TextTables) (env : Env) (io : LaunchIo)

/-- An enabled fix loop has rules, at least one permit and a project, and no variable names a
project without its chain. -/
structure FixLoopReady : Prop where
  rules : names ((env.var envRules).getD "") ≠ []
  permits : 0 < maxConcurrent env
  chains : ∀ entry ∈ env.vars, entry.1 ≠ envProject
  projects : ∃ entry ∈ env.vars, ∃ suffix, entry.1 = envProject ++ suffix

/-- The push sink is off, or has the address of an HTTP server and a client. -/
def NtfyReady : Prop :=
  ∀ url, env.var "NTFY_URL" = some url → env.var "WATCHTOWER_NTFY_TOPIC" ≠ some "" →
    ("http://".toList <+: url.toList ∨ "https://".toList <+: url.toList) ∧ io.client = .ok ()

/-- The fix loop as the environment has it. -/
def fixLoopConfig : FixLoopConfig where
  sink := {
    allowedRules := names ((env.var envRules).getD "")
    projects := fun chain => ((env.vars.filterMap (projectEntry tables)).reverse).lookup chain
    bin := (env.var envBin).getD defaultClaudeBin
    incidentDir := (env.var envIncidentDir).getD defaultIncidentDir
    worktreeBase := (env.var envWorktreeBase).getD defaultWorktreeBase }
  permits := maxConcurrent env

theorem filterMap_projects_eq_nil : env.vars.filterMap (projectEntry tables) = [] ↔
    ¬ ∃ entry ∈ env.vars, ∃ suffix, entry.1 = envProject ++ suffix := by
  rw [List.filterMap_eq_nil_iff]
  simp only [Option.eq_none_iff_forall_ne_some, ne_eq, projectEntry_eq_some, not_exists, not_and]
  constructor
  · intro h entry mem suffix hname
    exact h entry mem (tables.lowercase suffix, entry.2) suffix hname rfl
  · intro h entry mem project suffix hname _
    exact h entry mem suffix hname

theorem autoClaude_cases :
    (enabled env = false ∧ autoClaudeFromEnv tables env = some (.ok none)) ∨
    (enabled env = true ∧ ¬ FixLoopReady env ∧
      ∃ e, autoClaudeFromEnv tables env = some (.error e)) ∨
    (enabled env = true ∧ FixLoopReady env ∧ maxPermits < maxConcurrent env ∧
      autoClaudeFromEnv tables env = none) ∨
    (enabled env = true ∧ FixLoopReady env ∧ maxConcurrent env ≤ maxPermits ∧
      autoClaudeFromEnv tables env = some (.ok (some (fixLoopConfig tables env)))) := by
  cases henabled : enabled env with
  | false => exact .inl ⟨rfl, by rw [autoClaudeFromEnv, henabled, if_pos rfl]⟩
  | true =>
    right
    rw [autoClaudeFromEnv, henabled, if_neg (by decide)]
    dsimp only
    by_cases hrules : names ((env.var envRules).getD "") = []
    · exact .inl ⟨rfl, fun ready => ready.rules hrules, _, if_pos hrules⟩
    · rw [if_neg hrules]
      by_cases hzero : maxConcurrent env = 0
      · rw [if_pos hzero]
        exact .inl ⟨rfl, fun ready => Nat.ne_of_gt ready.permits hzero, _, rfl⟩
      · rw [if_neg hzero]
        rcases collectProjects_cases tables env.vars [] with ⟨hchains, hok⟩ | ⟨⟨entry, mem, hbad⟩,
          herror⟩
        · rw [hok]
          dsimp only
          rw [List.append_nil]
          by_cases hnone : env.vars.filterMap (projectEntry tables) = []
          · rw [hnone]
            exact .inl ⟨rfl, fun ready =>
              (filterMap_projects_eq_nil tables env).mp hnone ready.projects, _, rfl⟩
          · have hfull : (env.vars.filterMap (projectEntry tables)).reverse.isEmpty = false := by
              simpa using hnone
            have ready : FixLoopReady env := ⟨hrules, Nat.pos_of_ne_zero hzero, hchains,
              not_not.mp fun h => hnone ((filterMap_projects_eq_nil tables env).mpr h)⟩
            rw [hfull, if_neg (by decide)]
            by_cases hmany : maxPermits < maxConcurrent env
            · exact .inr (.inl ⟨rfl, ready, hmany, if_pos hmany⟩)
            · exact .inr (.inr ⟨rfl, ready, Nat.le_of_not_lt hmany, if_neg hmany⟩)
        · rw [herror]
          exact .inl ⟨rfl, fun ready => ready.chains entry mem hbad, _, rfl⟩

theorem ntfy_cases : (NtfyReady env io ∧ ∃ sink,
      ntfyFromEnvWith env.var io.client io.ntfyNow = .ok sink) ∨
    (¬ NtfyReady env io ∧ ∃ e, ntfyFromEnvWith env.var io.client io.ntfyNow = .error e) := by
  rw [ntfyFromEnvWith]
  cases hurl : env.var "NTFY_URL" with
  | none =>
    refine .inl ⟨fun url h => ?_, none, rfl⟩
    rw [hurl] at h
    cases h
  | some url =>
    dsimp only
    by_cases htopic : env.var "WATCHTOWER_NTFY_TOPIC" = some ""
    · rw [htopic]
      exact .inl ⟨fun _ _ hne => absurd htopic hne, none, rfl⟩
    · have hused : (env.var "WATCHTOWER_NTFY_TOPIC").getD "sacredvote-watchtower" ≠ "" := by
        cases hvalue : env.var "WATCHTOWER_NTFY_TOPIC" with
        | none => decide
        | some topic => exact fun h => htopic (by rw [hvalue, ← h]; rfl)
      rw [if_neg hused]
      unfold NtfySink.new
      by_cases hhttp : "http://".toList <+: url.toList ∨ "https://".toList <+: url.toList
      · rw [if_pos hhttp]
        cases hclient : io.client with
        | error e =>
          refine .inr ⟨fun ready => ?_, _, rfl⟩
          have hok := (ready url hurl htopic).2
          rw [hclient] at hok
          cases hok
        | ok _ =>
          refine .inl ⟨fun other hother _ => ?_, _, rfl⟩
          rw [hurl] at hother
          obtain rfl := Option.some.inj hother
          exact ⟨hhttp, hclient⟩
      · rw [if_neg hhttp]
        exact .inr ⟨fun ready => hhttp (ready url hurl htopic).1, _, rfl⟩

theorem email_ok : ∃ sink, emailFromEnvWith env.var io.emailNow = .ok sink := by
  rw [emailFromEnvWith]
  split
  · exact ⟨none, rfl⟩
  · dsimp only
    split
    · exact ⟨none, rfl⟩
    · exact ⟨_, rfl⟩

/-- What a daemon that runs is made of. -/
structure Launched (daemon : Running) : Prop where
  units : daemon.units = unitsOf env
  nonempty : unitsOf env ≠ []
  sinks : ∃ ntfy email, ntfyFromEnvWith env.var io.client io.ntfyNow = .ok ntfy ∧
    emailFromEnvWith env.var io.emailNow = .ok email ∧
    daemon.sinks = .logger :: ((ntfy.map Sink.ntfy).toList ++ (email.map Sink.email).toList ++
      if enabled env then [.autoClaude (fixLoopConfig tables env).sink] else [])
  permits : daemon.permits = if enabled env then some (maxConcurrent env) else none
  fixLoop : enabled env = true → FixLoopReady env ∧ maxConcurrent env ≤ maxPermits
  heartbeat : daemon.heartbeat = HeartbeatConfig.fromEnv env.heartbeat
  journal : daemon.journal = journalCommand env (unitsOf env)

/-- The steps of `main` end in a refusal, a panic or the loop. -/
inductive LaunchCase : Launch → Prop where
  | refused {text : String} : (unitsOf env = [] ∨ ¬ NtfyReady env io ∨
      (enabled env = true ∧ ¬ FixLoopReady env) ∨
      (enabled env = true → maxConcurrent env ≤ maxPermits) ∧ io.journal ≠ .ok ()) →
      LaunchCase (.refused text)
  | panicked : unitsOf env ≠ [] → NtfyReady env io → enabled env = true → FixLoopReady env →
      maxPermits < maxConcurrent env → LaunchCase .panicked
  | running {daemon : Running} : Launched tables env io daemon → NtfyReady env io →
      io.journal = .ok () → LaunchCase (.running daemon)

theorem launch_cases : LaunchCase tables env io (launch tables env io) := by
  rw [launch]
  dsimp only
  by_cases hunits : unitsOf env = []
  · rw [if_pos hunits]
    exact .refused (.inl hunits)
  · rw [if_neg hunits]
    rcases ntfy_cases env io with ⟨hready, ntfy, hntfy⟩ | ⟨hnot, e, hntfy⟩
    · obtain ⟨email, hemail⟩ := email_ok env io
      rw [hntfy, hemail]
      dsimp only
      rcases autoClaude_cases tables env with ⟨hoff, h⟩ | ⟨hon, hnot, e, h⟩ |
        ⟨hon, hfix, hmany, h⟩ | ⟨hon, hfix, hfew, h⟩
      · rw [h]
        cases hjournal : io.journal with
        | error e =>
          refine .refused (.inr (.inr (.inr ⟨fun hon => ?_, by rw [hjournal]; exact nofun⟩)))
          rw [hoff] at hon
          cases hon
        | ok _ =>
          refine .running ⟨rfl, hunits, ⟨ntfy, email, hntfy, hemail, ?_⟩, ?_, ?_, rfl, rfl⟩ hready
            hjournal
          · rw [hoff]
            rfl
          · rw [hoff]
            rfl
          · rw [hoff]
            exact fun h => nomatch h
      · rw [h]
        exact .refused (.inr (.inr (.inl ⟨hon, hnot⟩)))
      · rw [h]
        exact .panicked hunits hready hon hfix hmany
      · rw [h]
        cases hjournal : io.journal with
        | error e =>
          exact .refused (.inr (.inr (.inr ⟨fun _ => hfew, by rw [hjournal]; exact nofun⟩)))
        | ok _ =>
          refine .running ⟨rfl, hunits, ⟨ntfy, email, hntfy, hemail, ?_⟩, ?_, fun _ => ⟨hfix, hfew⟩,
            rfl, rfl⟩ hready hjournal
          · rw [hon]
            rfl
          · rw [hon]
            rfl
    · rw [hntfy]
      exact .refused (.inr (.inl hnot))

variable {tables env io}

theorem launched_of_running {daemon : Running} (h : launch tables env io = .running daemon) :
    Launched tables env io daemon := by
  have hcase := launch_cases tables env io
  rw [h] at hcase
  cases hcase with
  | running launched _ _ => exact launched

variable (tables env io)

end Launch

section Coherent

/-- The units that a command line of `journalctl` asks for. -/
def subscribed : List String → List String
  | "-u" :: unit :: rest => unit :: subscribed rest
  | _ :: rest => subscribed rest
  | [] => []

theorem subscribed_units (units : List String) :
    subscribed (units.flatMap fun unit => ["-u", unit]) = units := by
  induction units with
  | nil => rfl
  | cons unit rest ih =>
    rw [List.flatMap_cons, List.cons_append, List.cons_append, List.nil_append, subscribed, ih]

theorem subscribed_journalCommand (env : Env) (units : List String) :
    subscribed (journalCommand env units).args = units := by
  rw [journalCommand, List.cons_append, List.cons_append, List.nil_append, subscribed, subscribed,
    subscribed_units]
  · exact fun _ _ h => absurd h (by decide)
  · exact fun _ _ h => absurd h (by decide)

/-- A daemon that makes sense: it reads the journal of at least one unit and of those it was
told, every sink is there at most once and behind the logger, and the fix loop can fire. -/
structure Coherent (daemon : Running) : Prop where
  nonempty : daemon.units ≠ []
  named : ∀ unit ∈ daemon.units, IsName unit
  relisted : names (",".intercalate daemon.units) = daemon.units
  subscribed : Startup.subscribed daemon.journal.args = daemon.units
  logs : daemon.sinks.head? = some .logger
  once : (daemon.sinks.map Sink.name).Sublist ["logger", "ntfy", "email", "auto_claude"]
  fires : ∀ s, .autoClaude s ∈ daemon.sinks → s.allowedRules ≠ [] ∧
    (∃ chain project, s.projects chain = some project) ∧
    ∃ permits, daemon.permits = some permits ∧ 0 < permits
  beats : ∃ secs : Nat, daemon.heartbeat.interval = Chrono.Duration.seconds secs ∧
    minIntervalSecs ≤ secs ∧ secs ≤ maxIntervalSecs
  beatsAt : daemon.heartbeat.path ≠ ""

variable {tables : TextTables} {env : Env} {io : LaunchIo} {daemon : Running}

theorem optional_sublist {α : Type*} (o : Option α) (wrap : α → Sink) {name : String}
    (hname : ∀ a, (wrap a).name = name) : ((o.map wrap).toList.map Sink.name).Sublist [name] := by
  cases o with
  | none => exact List.nil_sublist _
  | some a =>
    rw [Option.map_some, Option.toList_some, List.map_singleton, hname]

theorem Launched.once (launched : Launched tables env io daemon) :
    (daemon.sinks.map Sink.name).Sublist ["logger", "ntfy", "email", "auto_claude"] := by
  obtain ⟨ntfy, email, _, _, hsinks⟩ := launched.sinks
  rw [hsinks, List.map_cons, List.map_append, List.map_append]
  have hntfy := optional_sublist ntfy Sink.ntfy fun _ => rfl
  have hemail := optional_sublist email Sink.email fun _ => rfl
  refine .cons_cons _ ((hntfy.append hemail).append ?_)
  cases enabled env with
  | false => exact List.nil_sublist _
  | true => exact .refl _

theorem Launched.autoClaude_mem (launched : Launched tables env io daemon) {s : AutoClaudeSink}
    (mem : .autoClaude s ∈ daemon.sinks) :
    enabled env = true ∧ s = (fixLoopConfig tables env).sink := by
  obtain ⟨ntfy, email, _, _, hsinks⟩ := launched.sinks
  rw [hsinks] at mem
  cases ntfy <;> cases email <;> cases henabled : enabled env <;>
    simp [henabled] at mem <;> exact ⟨rfl, mem⟩

theorem projects_nonempty (ready : FixLoopReady env) :
    ∃ chain project, (fixLoopConfig tables env).sink.projects chain = some project := by
  obtain ⟨entry, mem, suffix, hname⟩ := ready.projects
  refine ⟨tables.lowercase suffix, Option.isSome_iff_exists.mp (List.lookup_isSome_iff.mpr ?_)⟩
  refine ⟨(tables.lowercase suffix, entry.2), List.mem_reverse.mpr ?_, beq_self_eq_true _⟩
  exact List.mem_filterMap.mpr
    ⟨entry, mem, (projectEntry_eq_some tables).mpr ⟨suffix, hname, rfl⟩⟩

theorem heartbeatPath_ne (env : Environment) : (HeartbeatConfig.fromEnv env).path ≠ "" := by
  rw [HeartbeatConfig.fromEnv]
  cases hfilter : env.heartbeatPath.filter (· ≠ "") with
  | none =>
    have hdefault : defaultHeartbeatPath ≠ "" := by decide
    exact hdefault
  | some path => exact of_decide_eq_true (Option.filter_eq_some_iff.mp hfilter).2

/-- A daemon that gets to its loop makes sense. -/
theorem running_coherent (h : launch tables env io = .running daemon) : Coherent daemon := by
  have launched := launched_of_running h
  have hnamed : ∀ unit ∈ daemon.units, IsName unit := by
    rw [launched.units]
    exact isName_of_mem
  refine ⟨by rw [launched.units]; exact launched.nonempty, hnamed, names_intercalate hnamed,
    ?_, ?_, launched.once, fun s mem => ?_, ?_, ?_⟩
  · rw [launched.journal, launched.units, subscribed_journalCommand]
  · obtain ⟨_, _, _, _, hsinks⟩ := launched.sinks
    rw [hsinks]
    rfl
  · obtain ⟨hon, rfl⟩ := launched.autoClaude_mem mem
    obtain ⟨ready, _⟩ := launched.fixLoop hon
    refine ⟨ready.rules, projects_nonempty ready, _, ?_, ready.permits⟩
    rw [launched.permits, if_pos hon]
  · rw [launched.heartbeat]
    exact ⟨_, rfl, intervalSecs_bounds _⟩
  · rw [launched.heartbeat]
    exact heartbeatPath_ne _

def registerEnv : Env where
  vars := [("WATCHTOWER_UNITS", " vote.service,, crypto.service"), ("NTFY_URL", "https://ntfy.sh/"),
    ("WATCHTOWER_AUTO_CLAUDE_ENABLE", "on"), ("WATCHTOWER_AUTO_CLAUDE_RULES", "fatal_any"),
    ("WATCHTOWER_AUTO_CLAUDE_PROJECT_REGISTER", "/srv/sacredvote")]
  distinct := by decide

def calmIo : LaunchIo := ⟨.ok (), 0, 0, .ok ()⟩

theorem running_coherent_register : ∃ daemon,
    launch asciiTables registerEnv calmIo = .running daemon ∧ Coherent daemon ∧
      daemon.units = ["vote.service", "crypto.service"] ∧
      daemon.sinks.map Sink.name = ["logger", "ntfy", "auto_claude"] ∧
      daemon.journal.args =
        ["-f", "--output=json", "-u", "vote.service", "-u", "crypto.service"] :=
  ⟨_, rfl, running_coherent (rfl : launch asciiTables registerEnv calmIo = .running _),
    by decide +kernel, by decide +kernel, by decide +kernel⟩

end Coherent

end Watchtower.Startup
