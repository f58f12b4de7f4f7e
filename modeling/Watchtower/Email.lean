import Watchtower.Classify
import Watchtower.RateLimit

/-!
# The email sink

`EmailSink::dispatch` with its gates in the order of the code: severity, dedup per
rule and key, daily cap, then the mail process with its four ways to fail. The
locks are never poisoned, since nothing panics under them.
-/

namespace Watchtower.Email

open Classify Parse RateLimit

inductive SinkError where
  | failed (text : String)
  deriving DecidableEq, Repr

def subjectPrefix : String := "[SV Action] watchtower:"
def dedupHours : Nat := 6
def dailyCap : Nat := 4

/-- The window of the per-key dedup. -/
def dedupWindow : Duration := Duration.fromSecs (dedupHours * 3600)

/-- The refill interval of the daily bucket. -/
def day : Duration := Duration.fromSecs (24 * 3600)

structure EmailSink where
  toAddr : String
  fromAddr : String
  bin : String
  dailyBucket : TokenBucket
  dedup : DedupCache

/-- What becomes of the mail process. A process ended by a signal has no exit code. -/
inductive MailOutcome where
  | spawnFailed (error : String)
  | writeFailed (error : String)
  | waitFailed (error : String)
  | exited (code : Option Int)
  deriving DecidableEq, Repr

/-- The mail process as it is spawned, and what is written to its standard input. -/
structure Invocation where
  bin : String
  args : List String
  stdin : String
  deriving DecidableEq, Repr

inductive Suppression where
  | perKeyDedup
  | dailyCap
  deriving DecidableEq, Repr

/-- What one dispatch logs, spawns and returns. -/
structure Dispatched where
  suppressed : Option Suppression
  invocation : Option Invocation
  result : Except SinkError Unit

/-- One call of `dispatch`: the alert, the instants read under the two locks and what
becomes of the mail process if it is spawned. -/
structure Delivery where
  alert : Alert
  dedupNow : Instant
  takeNow : Instant
  mail : MailOutcome
  ordered : dedupNow ≤ takeNow

def severityName : Severity → String
  | .info => "Info"
  | .warn => "Warn"
  | .page => "Page"

def dedupKey (alert : Alert) : String := alert.rule ++ "::" ++ alert.key

def subject (alert : Alert) : String :=
  let chain := (alert.sampleEvent.bind StructuredEvent.chain).getD "unknown"
  subjectPrefix ++ " " ++ alert.rule ++ " on " ++ chain ++
    " (count=" ++ toString alert.count ++ ")"

/-- The indented line of an optional field. -/
def optionalLine (label : String) : Option String → String
  | none => ""
  | some text => "  " ++ label ++ "=" ++ text ++ "\n"

def sampleBody (e : StructuredEvent) : String :=
  "\nSample event:\n" ++ optionalLine "chain" e.chain ++ optionalLine "rid" e.rid ++
    optionalLine "step" e.step ++ "  source=" ++ e.source ++ "\n" ++
    "  message=" ++ e.message ++ "\n"

def body (alert : Alert) : String :=
  "Severity: " ++ severityName alert.severity ++ "\n" ++
  "Rule:     " ++ alert.rule ++ "\n" ++
  "Key:      " ++ alert.key ++ "\n" ++
  "Count:    " ++ toString alert.count ++ "\n" ++
  "Window:   " ++ toString alert.windowSecs ++ " seconds\n" ++
  "Fired:    " ++ Chrono.DateTime.toRfc3339 alert.firedAt ++ "\n" ++
  (alert.sampleEvent.map sampleBody).getD "" ++
  "\n--\nFrom plausiden-watchtower. Reply to this email to ack — the daemon " ++
  "keeps a 6h dedup so you won't be re-paged for the same rule/key.\n"

namespace EmailSink

def new (toAddr fromAddr bin : String) (now : Instant) : EmailSink where
  toAddr := toAddr
  fromAddr := fromAddr
  bin := bin
  dailyBucket := TokenBucket.new Email.dailyCap day now
  dedup := DedupCache.new dedupWindow

def invocation (sink : EmailSink) (alert : Alert) : Invocation where
  bin := sink.bin
  args := ["-s", subject alert, "-a", "Content-Type: text/plain; charset=UTF-8",
    "-r", sink.fromAddr, sink.toAddr]
  stdin := body alert

/-- What `dispatch` returns once the mail process is spawned. -/
def mailResult (sink : EmailSink) : MailOutcome → Except SinkError Unit
  | .spawnFailed e => .error (.failed ("spawn " ++ sink.bin ++ ": " ++ e))
  | .writeFailed e => .error (.failed ("write body: " ++ e))
  | .waitFailed e => .error (.failed ("wait: " ++ e))
  | .exited code =>
    if code = some 0 then .ok ()
    else .error (.failed
      ("mail exited " ++ toString (code.getD (-1)) ++ " for " ++ sink.toAddr))

def dispatch (sink : EmailSink) (call : Delivery) : EmailSink × Dispatched :=
  if call.alert.severity ≠ .page then (sink, ⟨none, none, .ok ()⟩)
  else
    let emit := sink.dedup.shouldEmitAt (dedupKey call.alert) call.dedupNow
    let sink := { sink with dedup := emit.1 }
    if emit.2 = false then (sink, ⟨some .perKeyDedup, none, .ok ()⟩)
    else
      let take := sink.dailyBucket.tryTakeAt call.takeNow
      let sink := { sink with dailyBucket := take.1 }
      if take.2 = false then (sink, ⟨some .dailyCap, none, .ok ()⟩)
      else (sink, ⟨none, some (sink.invocation call.alert), sink.mailResult call.mail⟩)

/-- The call is for the mail and its key passes the dedup. -/
def admits (sink : EmailSink) (call : Delivery) : Bool :=
  call.alert.severity = .page ∧
    (sink.dedup.shouldEmitAt (dedupKey call.alert) call.dedupNow).2 = true

/-- The daily bucket has a token for the call. -/
def hasToken (sink : EmailSink) (call : Delivery) : Bool :=
  (sink.dailyBucket.tryTakeAt call.takeNow).2

end EmailSink

/-- The alert was for the mail and passed the dedup. -/
def PassedGate (entry : Delivery × Dispatched) : Prop :=
  entry.1.alert.severity = .page ∧ entry.2.suppressed ≠ some .perKeyDedup

instance (entry : Delivery × Dispatched) : Decidable (PassedGate entry) :=
  inferInstanceAs (Decidable (_ ∧ _))

/-- What a dispatch can do. -/
theorem EmailSink.dispatch_cases (sink : EmailSink) (call : Delivery) :
    (call.alert.severity ≠ .page ∧ sink.dispatch call = (sink, ⟨none, none, .ok ()⟩)) ∨
    (call.alert.severity = .page ∧ sink.admits call = false ∧
      sink.dispatch call =
        ({ sink with
          dedup := (sink.dedup.shouldEmitAt (dedupKey call.alert) call.dedupNow).1 },
          ⟨some .perKeyDedup, none, .ok ()⟩)) ∨
    (sink.admits call = true ∧ sink.hasToken call = false ∧
      sink.dispatch call =
        ({ sink with
          dedup := (sink.dedup.shouldEmitAt (dedupKey call.alert) call.dedupNow).1
          dailyBucket := (sink.dailyBucket.tryTakeAt call.takeNow).1 },
          ⟨some .dailyCap, none, .ok ()⟩)) ∨
    (sink.admits call = true ∧ sink.hasToken call = true ∧
      sink.dispatch call =
        ({ sink with
          dedup := (sink.dedup.shouldEmitAt (dedupKey call.alert) call.dedupNow).1
          dailyBucket := (sink.dailyBucket.tryTakeAt call.takeNow).1 },
          ⟨none, some (sink.invocation call.alert), sink.mailResult call.mail⟩)) := by
  by_cases hpage : call.alert.severity = .page
  · cases hemit : (sink.dedup.shouldEmitAt (dedupKey call.alert) call.dedupNow).2 with
    | false =>
      refine Or.inr (Or.inl ⟨hpage, by simp [admits, hemit], ?_⟩)
      simp [dispatch, hpage, hemit]
    | true =>
      have hadmits : sink.admits call = true := by simp [admits, hpage, hemit]
      cases htake : (sink.dailyBucket.tryTakeAt call.takeNow).2 with
      | false =>
        refine Or.inr (Or.inr (Or.inl ⟨hadmits, htake, ?_⟩))
        simp [dispatch, hpage, hemit, htake]
      | true =>
        refine Or.inr (Or.inr (Or.inr ⟨hadmits, htake, ?_⟩))
        simp [dispatch, hpage, hemit, htake, invocation, mailResult]
  · exact Or.inl ⟨hpage, if_pos hpage⟩

theorem EmailSink.page_of_admits {sink : EmailSink} {call : Delivery}
    (h : sink.admits call = true) : call.alert.severity = .page := by
  rw [admits, decide_eq_true_eq] at h
  exact h.1

/-- A call passes the gate exactly when the sink admits it. -/
theorem EmailSink.passedGate_iff (sink : EmailSink) (call : Delivery) :
    PassedGate (call, (sink.dispatch call).2) ↔ sink.admits call = true := by
  rcases sink.dispatch_cases call with ⟨hpage, h⟩ | ⟨hpage, hadmits, h⟩ |
    ⟨hadmits, _, h⟩ | ⟨hadmits, _, h⟩
  · exact iff_of_false (fun hp => hpage hp.1) fun ha => hpage (page_of_admits ha)
  · simp [PassedGate, h, hadmits]
  · simp [PassedGate, h, hadmits, page_of_admits hadmits]
  · simp [PassedGate, h, hadmits, page_of_admits hadmits]

theorem EmailSink.mailResult_isOk (sink : EmailSink) (mail : MailOutcome) :
    (sink.mailResult mail).isOk = true ↔ mail = .exited (some 0) := by
  cases mail with
  | spawnFailed e => simp [mailResult, Except.isOk, Except.toBool]
  | writeFailed e => simp [mailResult, Except.isOk, Except.toBool]
  | waitFailed e => simp [mailResult, Except.isOk, Except.toBool]
  | exited code =>
    by_cases h : code = some 0
    · simp [mailResult, h, Except.isOk, Except.toBool]
    · simp [mailResult, h, Except.isOk, Except.toBool]

end Watchtower.Email
