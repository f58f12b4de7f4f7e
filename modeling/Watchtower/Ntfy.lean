import Watchtower.Email
import Watchtower.Foundation.Text
import Watchtower.ParsedAlerts

/-!
# The ntfy sink

`NtfySink::dispatch`: the rate limit, then the request with its headers and body, and
what becomes of the response. The body cuts the sample by a byte index, which panics
where no character begins; the panic is an outcome of its own. The lock of the bucket is
never poisoned, since nothing panics under it.
-/

namespace Watchtower.Ntfy

open Classify Email Parse RateLimit Text

inductive NtfyConfigError where
  | invalidUrl (url : String)
  | clientBuild (error : String)
  deriving DecidableEq, Repr

structure NtfySink where
  url : String
  topic : String
  token : Option String
  bucket : TokenBucket

/-- The HTTP client is built by its library, with or without an error. -/
def NtfySink.new (url topic : String) (token : Option String) (ratePerMin : Nat)
    (client : Except String Unit) (now : Instant) : Except NtfyConfigError NtfySink :=
  if "http://".toList <+: url.toList ∨ "https://".toList <+: url.toList then
    match client with
    | .error e => .error (.clientBuild e)
    | .ok () => .ok {
        url := String.ofList (url.toList.rdropWhile (· == '/'))
        topic := topic
        token := token
        bucket := TokenBucket.new ratePerMin (Duration.fromSecs 60) now }
  else .error (.invalidUrl url)

def priority : Severity → String
  | .page => "urgent"
  | .warn => "high"
  | .info => "default"

def titlePrefix : Severity → String
  | .page => "[PAGE]"
  | .warn => "[WARN]"
  | .info => "[INFO]"

/-- The last part of the body. There is none where the slice panics. -/
def sampleText : Option StructuredEvent → Option String
  | none => some "(no sample)"
  | some e =>
    let m := e.message
    if 240 < m.utf8ByteSize then
      (sliceTo 240 m.toList).map fun front => String.ofList front ++ "…"
    else some m

/-- The first line of the body. -/
def summaryLine (alert : Alert) : String :=
  let chain := (alert.sampleEvent.bind StructuredEvent.chain).getD "-"
  let rid := (alert.sampleEvent.bind StructuredEvent.rid).getD "-"
  "rule=" ++ alert.rule ++ " key=" ++ alert.key ++ " count=" ++ toString alert.count ++
    " chain=" ++ chain ++ " rid=" ++ rid ++ "\n"

def bodyFor (alert : Alert) : Option String :=
  (sampleText alert.sampleEvent).map fun sample => summaryLine alert ++ sample

def title (alert : Alert) : String :=
  titlePrefix alert.severity ++ " watchtower: " ++ alert.rule

def tags (alert : Alert) : String :=
  "rotating_light," ++ (alert.sampleEvent.bind StructuredEvent.chain).getD "unknown"

structure Request where
  endpoint : String
  title : String
  priority : String
  tags : String
  authorization : Option String
  body : String
  deriving DecidableEq, Repr

/-- What becomes of the request: no response, or one with a status code, the text of the
status and the response body if it can be read. -/
inductive PostOutcome where
  | failed (error : String)
  | answered (status : Nat) (statusText : String) (text : Option String)
  deriving DecidableEq, Repr

/-- How a dispatch ends. -/
inductive Ending where
  | returned (result : Except SinkError Unit)
  | panicked

/-- What one dispatch drops, sends and ends with. -/
structure Pushed where
  throttled : Bool
  request : Option Request
  ending : Ending

/-- One call of `dispatch`: the alert, the instant read under the lock and what becomes of
the request if it is sent. -/
structure Push where
  alert : Alert
  now : Instant
  post : PostOutcome

namespace NtfySink

def request (sink : NtfySink) (alert : Alert) (body : String) : Request where
  endpoint := sink.url ++ "/" ++ sink.topic
  title := title alert
  priority := priority alert.severity
  tags := tags alert
  authorization := sink.token.map fun token => "Bearer " ++ token
  body := body

/-- What `dispatch` returns once the request is sent. -/
def postResult : PostOutcome → Except SinkError Unit
  | .failed e => .error (.failed ("ntfy POST failed: " ++ e))
  | .answered status statusText text =>
    if 200 ≤ status ∧ status < 300 then .ok ()
    else .error (.failed ("ntfy returned " ++ statusText ++ ": " ++
      String.ofList ((text.getD "").toList.take 200)))

def dispatch (sink : NtfySink) (push : Push) : NtfySink × Pushed :=
  let take := sink.bucket.tryTakeAt push.now
  let sink := { sink with bucket := take.1 }
  if take.2 = false then (sink, ⟨true, none, .returned (.ok ())⟩)
  else
    match bodyFor push.alert with
    | none => (sink, ⟨false, none, .panicked⟩)
    | some body =>
      (sink, ⟨false, some (sink.request push.alert body), .returned (postResult push.post)⟩)

end NtfySink

/-- What a dispatch can do. -/
theorem NtfySink.dispatch_cases (sink : NtfySink) (push : Push) :
    (sink.dispatch push).1 = { sink with bucket := (sink.bucket.tryTakeAt push.now).1 } ∧
    (((sink.bucket.tryTakeAt push.now).2 = false ∧
      (sink.dispatch push).2 = ⟨true, none, .returned (.ok ())⟩) ∨
    ((sink.bucket.tryTakeAt push.now).2 = true ∧ bodyFor push.alert = none ∧
      (sink.dispatch push).2 = ⟨false, none, .panicked⟩) ∨
    ((sink.bucket.tryTakeAt push.now).2 = true ∧ ∃ body, bodyFor push.alert = some body ∧
      (sink.dispatch push).2 = ⟨false, some (sink.request push.alert body),
        .returned (postResult push.post)⟩)) := by
  cases htake : (sink.bucket.tryTakeAt push.now).2 with
  | false => simp [dispatch, htake]
  | true =>
    cases hbody : bodyFor push.alert with
    | none => simp [dispatch, htake, hbody]
    | some body => simp [dispatch, htake, hbody, request]

theorem NtfySink.dispatch_panics (sink : NtfySink) {push : Push}
    (granted : (sink.bucket.tryTakeAt push.now).2 = true) (hnone : bodyFor push.alert = none) :
    (sink.dispatch push).2.ending = .panicked := by
  simp [dispatch, granted, hnone]

/-! The cut. -/

/-- The message is short enough to be shown whole, or a character begins at the cut. -/
def CutsCleanly (message : String) : Prop :=
  message.utf8ByteSize ≤ 240 ∨ IsCharBoundary 240 message.toList

/-- The last part of the body is the whole message, or up to 240 bytes from its beginning
and an ellipsis. -/
def ShowsMessage (alert : Alert) (message : String) : Prop :=
  ∃ shown, bodyFor alert = some (summaryLine alert ++ shown) ∧
    if message.utf8ByteSize ≤ 240 then shown = message
    else ∃ front back, message = front ++ back ∧ front.utf8ByteSize ≤ 240 ∧ shown = front ++ "…"

/-- The body is built whatever the sample is, and it shows the sample's message. -/
structure BodySafe (alert : Alert) : Prop where
  built : (bodyFor alert).isSome
  shows : ∀ e, alert.sampleEvent = some e → ShowsMessage alert e.message
  returns : ∀ (sink : NtfySink) (push : Push), push.alert = alert →
    (sink.dispatch push).2.ending ≠ .panicked

theorem sampleText_isSome (e : StructuredEvent) :
    (sampleText (some e)).isSome ↔ CutsCleanly e.message := by
  rw [CutsCleanly, sampleText]
  by_cases h : 240 < e.message.utf8ByteSize
  · rw [if_pos h, Option.isSome_map, sliceTo_isSome]
    exact ⟨Or.inr, fun hcut => hcut.resolve_left (by omega)⟩
  · rw [if_neg h]
    exact iff_of_true rfl (Or.inl (by omega))

theorem bodyFor_isSome (alert : Alert) : (bodyFor alert).isSome ↔
    ∀ e, alert.sampleEvent = some e → CutsCleanly e.message := by
  rw [bodyFor, Option.isSome_map]
  cases hsample : alert.sampleEvent with
  | none => simp [sampleText]
  | some e => simp [sampleText_isSome]

theorem showsMessage_of_isSome {alert : Alert} {e : StructuredEvent}
    (hsample : alert.sampleEvent = some e) (hsome : (bodyFor alert).isSome) :
    ShowsMessage alert e.message := by
  obtain ⟨body, hbody⟩ := Option.isSome_iff_exists.mp hsome
  rw [bodyFor, hsample, Option.map_eq_some_iff] at hbody
  obtain ⟨shown, hshown, rfl⟩ := hbody
  refine ⟨shown, by rw [bodyFor, hsample, hshown]; rfl, ?_⟩
  rw [sampleText] at hshown
  by_cases h : 240 < e.message.utf8ByteSize
  · rw [if_pos h, Option.map_eq_some_iff] at hshown
    obtain ⟨front, hfront, rfl⟩ := hshown
    obtain ⟨back, hsplit, hlen⟩ := sliceTo_eq_some.mp hfront
    rw [if_neg (by omega)]
    refine ⟨String.ofList front, String.ofList back, ?_, ?_, rfl⟩
    · rw [← String.ofList_append, ← hsplit, String.ofList_toList]
    · rw [utf8ByteSize_ofList, hlen]
  · rw [if_neg h, Option.some.injEq] at hshown
    rw [if_pos (by omega), hshown]

/-- The body is safe exactly if the sample's message cuts cleanly. -/
theorem body_safe_iff (alert : Alert) : BodySafe alert ↔
    ∀ e, alert.sampleEvent = some e → CutsCleanly e.message := by
  rw [← bodyFor_isSome]
  constructor
  · exact BodySafe.built
  · intro hsome
    refine ⟨hsome, fun e hsample => showsMessage_of_isSome hsample hsome, ?_⟩
    rintro sink push rfl
    rcases (sink.dispatch_cases push).2 with ⟨_, h⟩ | ⟨_, hnone, _⟩ | ⟨_, body, _, h⟩
    · rw [h]
      exact fun hpanic => by cases hpanic
    · rw [hnone] at hsome
      cases hsome
    · rw [h]
      exact fun hpanic => by cases hpanic

/-- A number of letters of one byte and one letter of two. -/
def accentedMessage (letters : Nat) : String :=
  String.ofList (List.replicate letters 'x' ++ ['é'])

def accentedLine (letters : Nat) : String :=
  "[3:55:50 PM] [FATAL] [storage] " ++ accentedMessage letters

/-- The byte of the cut is the second of the last letter. -/
theorem accentedMessage_cut {letters : Nat} (h : letters = 239) :
    ¬ CutsCleanly (accentedMessage letters) := by
  have hsize : ('x').utf8Size = 1 ∧ ('é').utf8Size = 2 := by decide
  have hlen : byteLen (List.replicate letters 'x' ++ ['é']) = 241 := by
    rw [byteLen_append, byteLen_replicate, byteLen_cons, byteLen_nil, hsize.1, hsize.2, h]
  rintro (hshort | ⟨front, back, hsplit, hfront⟩)
  · rw [accentedMessage, utf8ByteSize_ofList, hlen] at hshort
    omega
  · rw [accentedMessage, String.toList_ofList] at hsplit
    rcases List.append_eq_append_iff.mp hsplit with ⟨more, rfl, hmore⟩ | ⟨more, hletters, _⟩
    · rw [byteLen_append, byteLen_replicate, hsize.1] at hfront
      cases more with
      | nil =>
        rw [byteLen_nil] at hfront
        omega
      | cons c more =>
        obtain ⟨rfl, _⟩ := List.cons.inj hmore
        rw [byteLen_cons, hsize.2] at hfront
        omega
    · have htotal := congrArg byteLen hletters
      rw [byteLen_append, byteLen_replicate, hsize.1] at htotal
      omega

theorem accentedMessage_toList (letters : Nat) :
    (accentedMessage letters).toList = List.replicate letters 'x' ++ ['é'] :=
  String.toList_ofList

theorem accentedLine_front : "[3:55:50 PM] [FATAL] [storage] ".toList =
    '[' :: ("3:55:50 PM".toList ++ ']' :: ([' '] ++ '[' :: ("FATAL".toList ++ ']' ::
      ([' '] ++ '[' :: ("storage".toList ++ [']', ' ']))))) := by
  decide

theorem accentedLine_toList (letters : Nat) : (accentedLine letters).toList =
    '[' :: ("3:55:50 PM".toList ++ ']' :: ([' '] ++ '[' :: ("FATAL".toList ++ ']' ::
      ([' '] ++ '[' :: ("storage".toList ++ ']' ::
        (' ' :: (accentedMessage letters).toList)))))) := by
  have hparts : (accentedLine letters).toList =
      "[3:55:50 PM] [FATAL] [storage] ".toList ++ (accentedMessage letters).toList :=
    String.toList_append
  rw [hparts, accentedLine_front]
  simp only [List.cons_append, List.append_assoc, List.nil_append]

theorem trim_accentedLine (letters : Nat) : trim (accentedLine letters) = accentedLine letters := by
  have hends : (accentedLine letters).toList = '[' :: (("3:55:50 PM".toList ++ ']' ::
      ([' '] ++ '[' :: ("FATAL".toList ++ ']' :: ([' '] ++ '[' :: ("storage".toList ++ ']' ::
        (' ' :: List.replicate letters 'x')))))) ++ ['é']) := by
    rw [accentedLine_toList, accentedMessage_toList]
    simp only [List.cons_append, List.append_assoc, List.nil_append]
  exact trim_eq_self hends (by decide) (by decide)

theorem accentedLine_prefixed (letters : Nat) :
    HasPrefix (accentedLine letters).toList "3:55:50 PM".toList "FATAL".toList
      "storage".toList (' ' :: (accentedMessage letters).toList) :=
  ⟨by decide, List.all_eq_true.mp (by decide), by decide, List.all_eq_true.mp (by decide),
    by decide, List.all_eq_true.mp (by decide), [' '], [' '], by decide,
    List.all_eq_true.mp (by decide), by decide, List.all_eq_true.mp (by decide),
    accentedLine_toList letters⟩

theorem accentedLine_parsed (letters : Nat) :
    ∃ e, parseLine .ascii (accentedLine letters) = .structured e ∧
      e.level = .fatal ∧ e.message = accentedMessage letters := by
  have hrest : remaining (' ' :: (accentedMessage letters).toList) =
      (accentedMessage letters).toList := by
    cases letters with
    | zero => simp [remaining, accentedMessage, isWhitespace]
    | succ n => simp [remaining, accentedMessage, isWhitespace, List.replicate_succ]
  have hone : (remaining (' ' :: (accentedMessage letters).toList)).all notNewline := by
    rw [hrest]
    simp [accentedMessage, notNewline]
  have hprefix := accentedLine_prefixed letters
  rw [← trim_accentedLine] at hprefix
  rw [parseLine_prefixed .ascii hprefix, if_pos hone]
  have hlevel : Level.parse (String.ofList "FATAL".toList) = .fatal := by decide
  exact ⟨_, rfl, hlevel, by simp only [prefixEvent, hrest, String.ofList_toList]⟩

def localSink : NtfySink where
  url := "http://127.0.0.1:8090"
  topic := "watchtower"
  token := none
  bucket := TokenBucket.new 10 (Duration.fromSecs 60) 0

theorem localSink_grants : (localSink.bucket.tryTakeAt 0).2 = true := by decide +kernel

/-- A fatal line aborts its own dispatch. -/
theorem body_for_panics :
    (¬ ∀ (u : UnicodeClasses) (messages : List (String × Chrono.DateTime)) (alert : Alert),
      alert ∈ Classifier.new.alerts (parsedCalls u messages) → BodySafe alert) ∧
    ∃ alert ∈ Classifier.new.alerts (parsedCalls .ascii [(accentedLine 239, 0)]), ∃ sink,
      NtfySink.new "http://127.0.0.1:8090" "watchtower" none 10 (.ok ()) 0 = .ok sink ∧
      ∀ post, (sink.dispatch ⟨alert, 0, post⟩).2.ending = .panicked := by
  obtain ⟨e, parsed, fatal, message⟩ := accentedLine_parsed 239
  have mem := fatalAlertOf_mem_parsed parsed fatal 0
  have hnone : bodyFor (fatalAlertOf e 0) = none := by
    rw [← Option.not_isSome_iff_eq_none, bodyFor_isSome]
    intro clean
    have hcut := clean e rfl
    rw [message] at hcut
    exact accentedMessage_cut rfl hcut
  constructor
  · intro all
    have safe := (all .ascii _ _ mem).built
    rw [hnone] at safe
    cases safe
  · exact ⟨fatalAlertOf e 0, mem, localSink, rfl, fun post =>
      localSink.dispatch_panics localSink_grants hnone⟩

end Watchtower.Ntfy
