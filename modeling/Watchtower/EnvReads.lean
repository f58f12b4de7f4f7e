import Watchtower.Launch

/-!
# What the daemon reads of its environment

The start of the daemon is a function of the variables it reads and of what becomes of the
client and of `journalctl`: no other variable changes what `main` makes of these, and neither
does the order in which they stand, as long as the names of no two projects differ in their
case alone.
-/

namespace Watchtower.Startup

open AutoClaude Heartbeat Ntfy Sinks

/-- The variables that are read by name. -/
def readNames : List String :=
  ["WATCHTOWER_UNITS", "JOURNALCTL_BIN", "NTFY_URL", "WATCHTOWER_NTFY_TOPIC", "NTFY_TOKEN",
    "WATCHTOWER_NTFY_RATE_PER_MIN", "WATCHTOWER_EMAIL_TO", "WATCHTOWER_EMAIL_FROM",
    "WATCHTOWER_EMAIL_BIN", envEnable, envRules, envBin, envIncidentDir, envWorktreeBase,
    envMaxConcurrent, "WATCHTOWER_HEARTBEAT_PATH", "WATCHTOWER_HEARTBEAT_INTERVAL_SECS",
    "WATCHTOWER_HEARTBEAT_STALE_SECS"]

/-- Two environments with the same variables, as far as the daemon reads them. -/
structure Env.Agrees (env other : Env) : Prop where
  named : ∀ name ∈ readNames, env.var name = other.var name
  projects : ∀ suffix, env.var (envProject ++ suffix) = other.var (envProject ++ suffix)

/-- Every chain has one variable. -/
def OneCase (tables : TextTables) (env : Env) : Prop :=
  ∀ suffix suffix' value value', env.var (envProject ++ suffix) = some value →
    env.var (envProject ++ suffix') = some value' →
    tables.lowercase suffix = tables.lowercase suffix' → suffix = suffix'

theorem lookup_eq_some_of_unique {list : List (String × String)} {key : String}
    (unique : ∀ a b, (key, a) ∈ list → (key, b) ∈ list → a = b) (value : String) :
    list.lookup key = some value ↔ (key, value) ∈ list := by
  have mem_of_lookup : ∀ {a}, list.lookup key = some a → (key, a) ∈ list := by
    intro a h
    obtain ⟨front, back, rfl, _⟩ := List.lookup_eq_some_iff.mp h
    simp
  constructor
  · exact mem_of_lookup
  · intro mem
    cases hfound : list.lookup key with
    | none =>
      rw [List.lookup_eq_none_iff] at hfound
      exact absurd (hfound _ mem) (by simp)
    | some other => rw [unique other value (mem_of_lookup hfound) mem]

theorem Env.var_eq_some (env : Env) {name value : String} :
    env.var name = some value ↔ (name, value) ∈ env.vars :=
  lookup_eq_some_of_unique (fun _ _ ha hb =>
    (Prod.mk.inj (List.inj_on_of_nodup_map env.distinct ha hb rfl)).2) value

section Projects
variable {tables : TextTables} {env other : Env}

theorem mem_projects {chain project : String} :
    (chain, project) ∈ (env.vars.filterMap (projectEntry tables)).reverse ↔
      ∃ suffix, env.var (envProject ++ suffix) = some project ∧
        tables.lowercase suffix = chain := by
  rw [List.mem_reverse, List.mem_filterMap]
  constructor
  · rintro ⟨⟨name, value⟩, mem, hentry⟩
    obtain ⟨suffix, rfl, hpair⟩ := (projectEntry_eq_some tables).mp hentry
    obtain ⟨rfl, rfl⟩ := Prod.mk.inj hpair
    exact ⟨suffix, env.var_eq_some.mpr mem, rfl⟩
  · rintro ⟨suffix, hvar, rfl⟩
    exact ⟨(envProject ++ suffix, project), env.var_eq_some.mp hvar,
      (projectEntry_eq_some tables).mpr ⟨suffix, rfl, rfl⟩⟩

/-- The map of the projects has a chain just if a variable does. -/
theorem lookup_projects (oneCase : OneCase tables env) (chain project : String) :
    ((env.vars.filterMap (projectEntry tables)).reverse).lookup chain = some project ↔
      ∃ suffix, env.var (envProject ++ suffix) = some project ∧
        tables.lowercase suffix = chain := by
  rw [lookup_eq_some_of_unique, mem_projects]
  intro a b ha hb
  obtain ⟨suffix, hvar, hchain⟩ := mem_projects.mp ha
  obtain ⟨suffix', hvar', hchain'⟩ := mem_projects.mp hb
  obtain rfl := oneCase suffix suffix' a b hvar hvar' (hchain.trans hchain'.symm)
  exact Option.some.inj (hvar.symm.trans hvar')

theorem Env.Agrees.oneCase (agrees : env.Agrees other) (oneCase : OneCase tables env) :
    OneCase tables other := by
  intro suffix suffix' value value' hvar hvar'
  rw [← agrees.projects] at hvar hvar'
  exact oneCase suffix suffix' value value' hvar hvar'

theorem Env.Agrees.lookup_projects (agrees : env.Agrees other) (oneCase : OneCase tables env) :
    (fun chain => ((env.vars.filterMap (projectEntry tables)).reverse).lookup chain) =
      fun chain => ((other.vars.filterMap (projectEntry tables)).reverse).lookup chain := by
  funext chain
  refine Option.ext fun project => ?_
  rw [Startup.lookup_projects oneCase, Startup.lookup_projects (agrees.oneCase oneCase)]
  simp only [agrees.projects]

theorem Env.Agrees.isEmpty_projects (agrees : env.Agrees other) (tables : TextTables) :
    (env.vars.filterMap (projectEntry tables)).reverse.isEmpty =
      (other.vars.filterMap (projectEntry tables)).reverse.isEmpty := by
  have hnone : ∀ env : Env, (env.vars.filterMap (projectEntry tables)).reverse.isEmpty = true ↔
      ∀ suffix, env.var (envProject ++ suffix) = none := by
    intro env
    rw [List.isEmpty_iff, List.eq_nil_iff_forall_not_mem]
    constructor
    · intro h suffix
      rw [Option.eq_none_iff_forall_ne_some]
      exact fun project hvar => h _ (mem_projects.mpr ⟨suffix, hvar, rfl⟩)
    · rintro h ⟨chain, project⟩ mem
      obtain ⟨suffix, hvar, _⟩ := mem_projects.mp mem
      rw [h suffix] at hvar
      cases hvar
  rw [Bool.eq_iff_iff, hnone, hnone]
  simp only [agrees.projects]

/-- The loop over the variables, up to the order of what it inserts. -/
theorem collectProjects_eq (env : Env) : collectProjects tables env.vars [] =
    if env.var envProject = none then .ok (env.vars.filterMap (projectEntry tables)).reverse
    else .error (.emptyChainKey envProject) := by
  have hnone : env.var envProject = none ↔ ∀ entry ∈ env.vars, entry.1 ≠ envProject := by
    rw [Option.eq_none_iff_forall_ne_some]
    constructor
    · rintro h ⟨_, value⟩ mem rfl
      exact h value (env.var_eq_some.mpr mem)
    · intro h value hvar
      exact h _ (env.var_eq_some.mp hvar) rfl
  rcases collectProjects_cases tables env.vars [] with ⟨hall, hok⟩ | ⟨⟨entry, mem, hbad⟩, herror⟩
  · rw [hok, if_pos (hnone.mpr hall), List.append_nil]
  · rw [herror, if_neg fun h => hnone.mp h entry mem hbad]

end Projects

section Start
variable {tables : TextTables} {env other : Env} (agrees : env.Agrees other)
include agrees

theorem Env.Agrees.enabled : enabled env = enabled other := by
  rw [Startup.enabled, Startup.enabled, agrees.named envEnable (by decide)]

theorem Env.Agrees.maxConcurrent : maxConcurrent env = maxConcurrent other := by
  rw [Startup.maxConcurrent, Startup.maxConcurrent, agrees.named envMaxConcurrent (by decide)]

theorem Env.Agrees.autoClaude (oneCase : OneCase tables env) :
    autoClaudeFromEnv tables env = autoClaudeFromEnv tables other := by
  have hproject := agrees.projects ""
  have hlookup := agrees.lookup_projects oneCase
  have hempty := agrees.isEmpty_projects tables
  rw [String.append_empty] at hproject
  rw [autoClaudeFromEnv, autoClaudeFromEnv, agrees.enabled, agrees.maxConcurrent,
    agrees.named envRules (by decide), agrees.named envBin (by decide),
    agrees.named envIncidentDir (by decide), agrees.named envWorktreeBase (by decide),
    collectProjects_eq, collectProjects_eq, hproject]
  by_cases hnone : other.var envProject = none
  · rw [if_pos hnone, if_pos hnone]
    dsimp only
    rw [hlookup, hempty]
  · rw [if_neg hnone, if_neg hnone]

theorem Env.Agrees.ntfy (client : Except String Unit) (now : RateLimit.Instant) :
    ntfyFromEnvWith env.var client now = ntfyFromEnvWith other.var client now := by
  rw [ntfyFromEnvWith, ntfyFromEnvWith, agrees.named "NTFY_URL" (by decide),
    agrees.named "WATCHTOWER_NTFY_TOPIC" (by decide), agrees.named "NTFY_TOKEN" (by decide),
    agrees.named "WATCHTOWER_NTFY_RATE_PER_MIN" (by decide)]

theorem Env.Agrees.email (now : RateLimit.Instant) :
    emailFromEnvWith env.var now = emailFromEnvWith other.var now := by
  rw [emailFromEnvWith, emailFromEnvWith, agrees.named "WATCHTOWER_EMAIL_TO" (by decide),
    agrees.named "WATCHTOWER_EMAIL_FROM" (by decide),
    agrees.named "WATCHTOWER_EMAIL_BIN" (by decide)]

theorem Env.Agrees.units : unitsOf env = unitsOf other := by
  rw [unitsOf, unitsOf, agrees.named "WATCHTOWER_UNITS" (by decide)]

theorem Env.Agrees.journal (units : List String) :
    journalCommand env units = journalCommand other units := by
  rw [journalCommand, journalCommand, agrees.named "JOURNALCTL_BIN" (by decide)]

theorem Env.Agrees.heartbeat : env.heartbeat = other.heartbeat := by
  rw [Env.heartbeat, Env.heartbeat, agrees.named "WATCHTOWER_HEARTBEAT_PATH" (by decide),
    agrees.named "WATCHTOWER_HEARTBEAT_INTERVAL_SECS" (by decide),
    agrees.named "WATCHTOWER_HEARTBEAT_STALE_SECS" (by decide),
    agrees.named "NTFY_URL" (by decide), agrees.named "WATCHTOWER_NTFY_TOPIC" (by decide),
    agrees.named "NTFY_TOKEN" (by decide)]

end Start

end Watchtower.Startup
