import Mathlib.Data.List.Infix
import Watchtower.Chrono
import Watchtower.Foundation.Machine
import Watchtower.Parse

/-!
# The sliding-window classifier

The rule table, the state of one (rule, key) bucket and `Classifier::ingest`.
The map of buckets is a function from keys to optional states; the loop over the
rules is a fold that threads it and collects the alerts in table order.
-/

namespace Watchtower.Classify

open Chrono Parse

/-- Declared from the least to the most severe. -/
inductive Severity where
  | info
  | warn
  | page
  deriving DecidableEq, Repr

structure Alert where
  severity : Severity
  rule : String
  key : String
  count : Nat
  windowSecs : Int
  sampleEvent : Option StructuredEvent
  firedAt : DateTime
  deriving DecidableEq, Repr

structure Rule where
  name : String
  severity : Severity
  window : Duration
  threshold : Nat
  cooldown : Duration
  matchesKey : StructuredEvent → Option String

/-- `str::contains` -/
def contains (text needle : String) : Bool := needle.toList <:+: text.toList

def fatalAny : Rule where
  name := "fatal_any"
  severity := .page
  window := Duration.seconds 86400
  threshold := 1
  cooldown := Duration.seconds 300
  matchesKey e := if e.level = .fatal then some "any" else none

def errorBurstPerChain : Rule where
  name := "error_burst_per_chain"
  severity := .page
  window := Duration.seconds 60
  threshold := 5
  cooldown := Duration.seconds 300
  matchesKey e := if e.level = .error then some (e.chain.getD "unspecified") else none

def errorBaselinePerChain : Rule where
  name := "error_baseline_per_chain"
  severity := .warn
  window := Duration.seconds 600
  threshold := 1
  cooldown := Duration.seconds 600
  matchesKey e := if e.level = .error then some (e.chain.getD "unspecified") else none

def rejectClusterPerStep : Rule where
  name := "reject_cluster_per_step"
  severity := .warn
  window := Duration.seconds 60
  threshold := 10
  cooldown := Duration.seconds 300
  matchesKey e :=
    if contains e.message "REJECT" then
      let step := e.step.getD "unspecified"
      let chain := e.chain.getD "any"
      some (chain ++ "::" ++ step)
    else none

def warnBaselineGlobal : Rule where
  name := "warn_baseline_global"
  severity := .info
  window := Duration.seconds 600
  threshold := 50
  cooldown := Duration.seconds 600
  matchesKey e := if e.level = .warn then some "global" else none

def builtinRules : List Rule :=
  [fatalAny, errorBurstPerChain, errorBaselinePerChain, rejectClusterPerStep,
    warnBaselineGlobal]

/-- A table in which every rule is known by its own name. -/
structure RuleTable where
  rules : List Rule
  distinct : (rules.map Rule.name).Nodup
  window_pos : ∀ rule ∈ rules, 0 < rule.window
  threshold_pos : ∀ rule ∈ rules, 0 < rule.threshold
  cooldown_pos : ∀ rule ∈ rules, 0 < rule.cooldown

def builtinTable : RuleTable where
  rules := builtinRules
  distinct := by decide
  window_pos := by decide
  threshold_pos := by decide
  cooldown_pos := by decide

/-- `events` is in the order of arrival. -/
structure WindowState where
  events : List (DateTime × StructuredEvent)
  lastFired : Option DateTime

def WindowState.new : WindowState := ⟨[], none⟩

/-- Pop entries off the front until one is not older than the cutoff. -/
def WindowState.dropBefore (state : WindowState) (cutoff : DateTime) : WindowState :=
  { state with events := state.events.dropWhile fun entry => entry.1 < cutoff }

def WindowState.pushBack (state : WindowState) (now : DateTime)
    (structured : StructuredEvent) : WindowState :=
  { state with events := state.events ++ [(now, structured)] }

@[simp] theorem WindowState.dropBefore_events (state : WindowState) (cutoff : DateTime) :
    (state.dropBefore cutoff).events =
      state.events.dropWhile fun entry => entry.1 < cutoff := rfl

@[simp] theorem WindowState.dropBefore_lastFired (state : WindowState) (cutoff : DateTime) :
    (state.dropBefore cutoff).lastFired = state.lastFired := rfl

@[simp] theorem WindowState.pushBack_events (state : WindowState) (now : DateTime)
    (structured : StructuredEvent) :
    (state.pushBack now structured).events = state.events ++ [(now, structured)] := rfl

@[simp] theorem WindowState.pushBack_lastFired (state : WindowState) (now : DateTime)
    (structured : StructuredEvent) :
    (state.pushBack now structured).lastFired = state.lastFired := rfl

def WindowState.inCooldown (state : WindowState) (rule : Rule) (now : DateTime) : Bool :=
  state.lastFired.any fun last => now - last < rule.cooldown

/-- What the rule loop does to the bucket of the key it matched. -/
def WindowState.observe (rule : Rule) (key : String) (state : WindowState)
    (structured : StructuredEvent) (now : DateTime) : WindowState × Option Alert :=
  let state := (state.dropBefore (now - rule.window)).pushBack now structured
  if rule.threshold ≤ state.events.length ∧ state.inCooldown rule now = false then
    ({ state with lastFired := some now }, some {
      severity := rule.severity
      rule := rule.name
      key := key
      count := state.events.length
      windowSecs := rule.window.numSeconds
      sampleEvent := state.events.getLast?.map Prod.snd
      firedAt := now })
  else (state, none)

structure Classifier where
  rules : List Rule
  states : String × String → Option WindowState

namespace Classifier

def ofRules (rules : List Rule) : Classifier := ⟨rules, fun _ => none⟩

def new : Classifier := ofRules builtinRules

/-- The bucket of a (rule name, key) pair, a fresh one if it was never touched. -/
def bucket (c : Classifier) (id : String × String) : WindowState :=
  (c.states id).getD .new

def insert (c : Classifier) (id : String × String) (state : WindowState) : Classifier :=
  { c with states := fun other => if other = id then some state else c.states other }

/-- One turn of the rule loop. -/
def applyRule (structured : StructuredEvent) (now : DateTime)
    (acc : Classifier × List Alert) (rule : Rule) : Classifier × List Alert :=
  match rule.matchesKey structured with
  | none => acc
  | some key =>
    let observed := (acc.1.bucket (rule.name, key)).observe rule key structured now
    (acc.1.insert (rule.name, key) observed.1, acc.2 ++ observed.2.toList)

def ingest (c : Classifier) (event : LogEvent) (now : DateTime) :
    Classifier × List Alert :=
  match event with
  | .unstructured _ => (c, [])
  | .structured structured => c.rules.foldl (applyRule structured now) (c, [])

end Classifier

/-- One call of `ingest`. -/
structure Call where
  event : LogEvent
  now : DateTime

def Classifier.step (c : Classifier) (call : Call) : Classifier × List Alert :=
  c.ingest call.event call.now

/-- The alerts of each call of a run, call by call. -/
def Classifier.alertRuns (c : Classifier) (calls : List Call) : List (List Alert) :=
  Machine.outputs Classifier.step c calls

/-- All alerts of a run in the order they are emitted. -/
def Classifier.alerts (c : Classifier) (calls : List Call) : List Alert :=
  (c.alertRuns calls).flatten

end Watchtower.Classify
