import Watchtower.Foundation.Bank
import Watchtower.FanOut
import Watchtower.Logger
import Watchtower.Ntfy
import Watchtower.Permits

/-!
# The daemon and its sinks

The main loop with the sinks it is started with: every alert of every message goes to each
sink in turn. A sink that returns, with or without an error, leaves the others alone. A
panic in a sink unwinds through the fan-out and the main loop, and the process ends.
-/

namespace Watchtower.Sinks

open AutoClaude Chrono Classify Email FanOut Journal Machine Ntfy Parse RateLimit

/-- What the surroundings do while one alert is dispatched: the instants the sinks read, and
what becomes of the request, the mail process and the transcript. -/
structure Occasion where
  pushNow : Instant
  post : PostOutcome
  dedupNow : Instant
  takeNow : Instant
  ordered : dedupNow ≤ takeNow
  mail : MailOutcome
  available : Nat
  transcript : TranscriptIo
  started : DateTime

/-- An alert as it is dispatched. -/
structure Offer where
  alert : Alert
  occasion : Occasion

namespace Offer

def push (offer : Offer) : Push :=
  ⟨offer.alert, offer.occasion.pushNow, offer.occasion.post⟩

def delivery (offer : Offer) : Delivery :=
  ⟨offer.alert, offer.occasion.dedupNow, offer.occasion.takeNow, offer.occasion.mail,
    offer.occasion.ordered⟩

def fix (offer : Offer) : AutoClaude.Dispatch :=
  ⟨offer.alert, offer.occasion.transcript, offer.occasion.started⟩

end Offer

/-- `Box<dyn AlertSink>` -/
inductive Sink where
  | logger
  | ntfy (sink : NtfySink)
  | email (sink : EmailSink)
  | autoClaude (sink : AutoClaudeSink)

def Sink.name : Sink → String
  | .logger => "logger"
  | .ntfy _ => "ntfy"
  | .email _ => "email"
  | .autoClaude _ => "auto_claude"

/-- What a sink has done with an alert, with the instant at which it asked its bucket. -/
inductive Deed where
  | logged (json : Json) (result : Except SinkError Unit)
  | pushed (now : Instant) (done : Pushed)
  | mailed (now : Instant) (done : Email.Dispatched)
  | fixed (done : AutoClaude.Dispatched)

namespace Deed

def ending : Deed → Ending
  | .logged _ result => .returned result
  | .pushed _ done => done.ending
  | .mailed _ done => .returned done.result
  | .fixed done => .returned done.result

/-- The sink did not return. -/
def panicked (deed : Deed) : Bool :=
  match deed.ending with
  | .panicked => true
  | .returned _ => false

/-- The sink returned `Err`. -/
def failed (deed : Deed) : Bool :=
  match deed.ending with
  | .returned (.error _) => true
  | _ => false

end Deed

section Loop
variable (tables : TextTables)

/-- `dispatch` of a sink. The semaphore of the fix loop is shared with its tasks, and what it
has left is read off the occasion. -/
def Sink.dispatch (sink : Sink) (offer : Offer) : Sink × Deed :=
  match sink with
  | .logger => (.logger, .logged (Logger.dispatch offer.alert).1 (Logger.dispatch offer.alert).2)
  | .ntfy s =>
    let done := s.dispatch offer.push
    (.ntfy done.1, .pushed offer.occasion.pushNow done.2)
  | .email s =>
    let done := s.dispatch offer.delivery
    (.email done.1, .mailed offer.occasion.takeNow done.2)
  | .autoClaude s =>
    (.autoClaude s, .fixed (s.dispatch tables offer.occasion.available offer.fix).2)

/-- The loop of `MultiSink::dispatch`, up to a panic. -/
def fanOut (offer : Offer) (sinks : List Sink) : Bank.Outcome Sink Deed :=
  Bank.offer (Sink.dispatch tables) Deed.panicked offer sinks

/-- What `MultiSink::dispatch` returns when its sinks have. -/
def multiResult (deeds : List Deed) : Except SinkError Unit :=
  let failures := deeds.countP Deed.failed
  if failures = deeds.length ∧ deeds.isEmpty = false then
    .error (.failed ("all " ++ toString failures ++ " sinks failed"))
  else .ok ()

/-- A message of the channel, the time it is ingested at, and the occasions its alerts are
dispatched on. -/
structure Arrival where
  raw : String
  now : DateTime
  occasion : Alert → Occasion

/-- Where the main loop has come to: the classifier, the sinks, what the sinks did with each
alert, and whether the process is still there. -/
structure Progress where
  classifier : Classifier
  sinks : List Sink
  rounds : List (List Deed)
  alive : Bool

variable (u : UnicodeClasses)

/-- The dispatches that the alerts of a message lead to. -/
def Arrival.offers (c : Classifier) (arrival : Arrival) : List Offer :=
  (c.ingest (parseLine u arrival.raw) arrival.now).2.map fun alert =>
    ⟨alert, arrival.occasion alert⟩

/-- The main loop over the messages it receives. -/
def mainLoop : Classifier → List Sink → List Arrival → Progress
  | c, sinks, [] => ⟨c, sinks, [], true⟩
  | c, sinks, arrival :: rest =>
    let next := (c.ingest (parseLine u arrival.raw) arrival.now).1
    let sent := Bank.offerAll (Sink.dispatch tables) Deed.panicked sinks (arrival.offers u c)
    if sent.complete then
      let later := mainLoop next sent.bank rest
      { later with rounds := sent.emitted ++ later.rounds }
    else ⟨next, sent.bank, sent.emitted, false⟩

/-- All dispatches that a run would make if no sink panicked. -/
def offersOf : Classifier → List Arrival → List Offer
  | _, [] => []
  | c, arrival :: rest => arrival.offers u c ++
      offersOf (c.ingest (parseLine u arrival.raw) arrival.now).1 rest

end Loop

section Loop
variable (tables : TextTables) (u : UnicodeClasses)

/-- The loop over the messages with the loop over their alerts is one loop over all alerts. -/
theorem mainLoop_eq (c : Classifier) (sinks : List Sink) (arrivals : List Arrival) :
    (mainLoop tables u c sinks arrivals).sinks =
      (Bank.offerAll (Sink.dispatch tables) Deed.panicked sinks (offersOf u c arrivals)).bank ∧
    (mainLoop tables u c sinks arrivals).rounds =
      (Bank.offerAll (Sink.dispatch tables) Deed.panicked sinks (offersOf u c arrivals)).emitted ∧
    (mainLoop tables u c sinks arrivals).alive =
      (Bank.offerAll (Sink.dispatch tables) Deed.panicked sinks
        (offersOf u c arrivals)).complete := by
  induction arrivals generalizing c sinks with
  | nil => exact ⟨rfl, rfl, rfl⟩
  | cons arrival rest ih =>
    rw [mainLoop, offersOf, Bank.offerAll_append]
    cases hcomplete : (Bank.offerAll (Sink.dispatch tables) Deed.panicked sinks
        (arrival.offers u c)).complete with
    | false => simp [hcomplete]
    | true =>
      obtain ⟨hsinks, hrounds, halive⟩ := ih (c.ingest (parseLine u arrival.raw) arrival.now).1
        (Bank.offerAll (Sink.dispatch tables) Deed.panicked sinks (arrival.offers u c)).bank
      simp only [if_true, hsinks, hrounds, halive, and_self]

/-- The dispatched alerts are those of the classifier on the messages. -/
theorem offersOf_alerts (c : Classifier) (arrivals : List Arrival) :
    (offersOf u c arrivals).map Offer.alert =
      c.alerts (parsedCalls u (arrivals.map fun arrival => (arrival.raw, arrival.now))) := by
  induction arrivals generalizing c with
  | nil => rfl
  | cons arrival rest ih =>
    rw [offersOf, List.map_append, ih, Arrival.offers, List.map_map]
    have hid : (Offer.alert ∘ fun alert => ⟨alert, arrival.occasion alert⟩) = id := rfl
    rw [hid, List.map_id, Classifier.alerts, Classifier.alerts, Classifier.alertRuns,
      Classifier.alertRuns, List.map_cons, parsedCalls, parsedCalls, List.map_cons, outputs_cons,
      List.flatten_cons, Classifier.step]

end Loop

section Embeddings
variable (tables : TextTables)

theorem ntfy_embeds : Bank.Embeds NtfySink.dispatch (Sink.dispatch tables) .ntfy Offer.push
    fun offer done => .pushed offer.occasion.pushNow done :=
  ⟨fun _ _ => rfl⟩

theorem email_embeds : Bank.Embeds EmailSink.dispatch (Sink.dispatch tables) .email
    Offer.delivery fun offer done => .mailed offer.occasion.takeNow done :=
  ⟨fun _ _ => rfl⟩

/-- What becomes of a push that the bucket has granted or not. -/
def pushedFor (sink : NtfySink) (push : Push) (granted : Bool) : Pushed :=
  if granted = false then ⟨true, none, .returned (.ok ())⟩
  else
    match bodyFor push.alert with
    | none => ⟨false, none, .panicked⟩
    | some body =>
      ⟨false, some (sink.request push.alert body), .returned (NtfySink.postResult push.post)⟩

/-- The bucket of the sink is asked at every push, and nothing else of the sink changes. -/
theorem bucket_embeds (sink : NtfySink) :
    Bank.Embeds TokenBucket.tryTakeAt NtfySink.dispatch
      (fun bucket => { sink with bucket := bucket }) Push.now (pushedFor sink) := by
  refine ⟨fun bucket push => ?_⟩
  rw [NtfySink.dispatch, pushedFor]
  dsimp only
  cases (bucket.tryTakeAt push.now).2 with
  | false => rfl
  | true =>
    cases bodyFor push.alert with
    | none => rfl
    | some body => rfl

theorem after_ntfy (sink : NtfySink) (offers : List Offer) :
    after (Sink.dispatch tables) (.ntfy sink) offers = .ntfy { sink with
      bucket := after TokenBucket.tryTakeAt sink.bucket
        (offers.map fun offer => offer.occasion.pushNow) } := by
  rw [(ntfy_embeds tables).after_eq]
  have hrun := (bucket_embeds sink).after_eq sink.bucket (offers.map Offer.push)
  rw [List.map_map] at hrun
  exact congrArg Sink.ntfy hrun

theorem pushedFor_panics {sink : NtfySink} {push : Push} {granted : Bool} :
    (pushedFor sink push granted).ending = .panicked ↔
      granted = true ∧ bodyFor push.alert = none := by
  cases granted with
  | false => simp [pushedFor]
  | true =>
    cases hbody : bodyFor push.alert with
    | none => simp [pushedFor, hbody]
    | some body => simp [pushedFor, hbody]

end Embeddings

section Runs
variable {tables : TextTables} {u : UnicodeClasses}

theorem dispatch_name (sink : Sink) (offer : Offer) :
    (sink.dispatch tables offer).1.name = sink.name := by
  cases sink with
  | logger => rfl
  | ntfy s => rfl
  | email s => rfl
  | autoClaude s => rfl

theorem after_name (sink : Sink) (offers : List Offer) :
    (after (Sink.dispatch tables) sink offers).name = sink.name :=
  after_invariant (Sink.dispatch tables) (P := fun s => s.name = sink.name) rfl
    (fun s offer h => (dispatch_name s offer).trans h) offers

/-- Only a push can panic. -/
theorem ntfy_of_panicked {sink : Sink} {past : List Offer} {offer : Offer} (panicked :
    ((after (Sink.dispatch tables) sink past).dispatch tables offer).2.panicked = true) :
    ∃ s, sink = .ntfy s := by
  have hname : (after (Sink.dispatch tables) sink past).name = "ntfy" := by
    cases hafter : after (Sink.dispatch tables) sink past with
    | ntfy s => rfl
    | logger => rw [hafter] at panicked; cases panicked
    | email s => rw [hafter] at panicked; cases panicked
    | autoClaude s => rw [hafter] at panicked; cases panicked
  rw [after_name] at hname
  cases sink with
  | ntfy s => exact ⟨s, rfl⟩
  | logger => exact absurd hname (by decide)
  | email s => exact absurd hname (by simp [Sink.name])
  | autoClaude s => exact absurd hname (by simp [Sink.name])

theorem panicked_pushed {now : Instant} {done : Pushed} :
    (Deed.pushed now done).panicked = true ↔ done.ending = .panicked := by
  rw [Deed.panicked, Deed.ending]
  cases done.ending with
  | returned result => simp
  | panicked => simp

/-- The push that a bucket with a history grants or not. -/
theorem panicked_iff (s : NtfySink) (past : List Offer) (offer : Offer) :
    ((after (Sink.dispatch tables) (.ntfy s) past).dispatch tables offer).2.panicked = true ↔
      ((after TokenBucket.tryTakeAt s.bucket
          (past.map fun o => o.occasion.pushNow)).tryTakeAt offer.occasion.pushNow).2 = true ∧
        ∃ e, offer.alert.sampleEvent = some e ∧ ¬ CutsCleanly e.message := by
  rw [after_ntfy, (ntfy_embeds tables).step_eq, panicked_pushed, (bucket_embeds s).step_eq,
    pushedFor_panics, ← Option.not_isSome_iff_eq_none, bodyFor_isSome]
  simp only [not_forall, exists_prop, Offer.push]

/-- A run ends in a panic exactly if some push is granted while the sample of its alert does
not cut cleanly. -/
theorem crashes_iff (tables : TextTables) (u : UnicodeClasses) (c : Classifier)
    (sinks : List Sink) (arrivals : List Arrival) :
    (mainLoop tables u c sinks arrivals).alive = false ↔
      ∃ s, .ntfy s ∈ sinks ∧ ∃ past offer later, offersOf u c arrivals = past ++ offer :: later ∧
        ((after TokenBucket.tryTakeAt s.bucket
          (past.map fun o => o.occasion.pushNow)).tryTakeAt offer.occasion.pushNow).2 = true ∧
        ∃ e, offer.alert.sampleEvent = some e ∧ ¬ CutsCleanly e.message := by
  rw [(mainLoop_eq tables u c sinks arrivals).2.2, ← Bool.not_eq_true, Bank.offerAll_complete_iff]
  constructor
  · intro loud
    simp only [Bank.Quiet, not_forall, Bool.not_eq_false, exists_prop] at loud
    obtain ⟨sink, mem, deed, hdeed, panicked⟩ := loud
    obtain ⟨past, offer, later, hoffers, rfl⟩ := (mem_outputs _).mp hdeed
    obtain ⟨s, rfl⟩ := ntfy_of_panicked panicked
    exact ⟨s, mem, past, offer, later, hoffers, (panicked_iff s past offer).mp panicked⟩
  · rintro ⟨s, mem, past, offer, later, hoffers, hpanics⟩ quiet
    have hquiet := quiet (.ntfy s) mem _ ((mem_outputs _).mpr ⟨past, offer, later, hoffers, rfl⟩)
    rw [(panicked_iff s past offer).mpr hpanics] at hquiet
    cases hquiet

/-- A run of the main loop has dealt with the first of the dispatches up to a panic, if
there was one: what a sink is now and has done is what it makes by itself of those it saw. -/
structure SawUpTo (tables : TextTables) (run : Progress) (sinks : List Sink) (p : Nat)
    (before : List Offer) (last : Option Offer) : Prop where
  state : ∀ i s, sinks[i]? = some s → run.sinks[i]? = some
    (after (Sink.dispatch tables) s (before ++ if i ≤ p then last.toList else []))
  done : ∀ i s, sinks[i]? = some s → Bank.column i run.rounds =
    outputs (Sink.dispatch tables) s (before ++ if i ≤ p then last.toList else [])

/-- Whatever the sinks return, each of them does in a run what it does by itself. In a run
that panics, it does so up to the alert of the panic, which the sinks behind do not see. -/
theorem mainLoop_cases (tables : TextTables) (u : UnicodeClasses) (c : Classifier)
    (sinks : List Sink) (arrivals : List Arrival) :
    ((mainLoop tables u c sinks arrivals).alive = true ∧ SawUpTo tables
      (mainLoop tables u c sinks arrivals) sinks 0 (offersOf u c arrivals) none) ∨
    ((mainLoop tables u c sinks arrivals).alive = false ∧ ∃ before offer later p s,
      offersOf u c arrivals = before ++ offer :: later ∧ sinks[p]? = some (.ntfy s) ∧
      ((after (Sink.dispatch tables) (.ntfy s) before).dispatch tables offer).2.panicked = true ∧
      SawUpTo tables (mainLoop tables u c sinks arrivals) sinks p before (some offer)) := by
  obtain ⟨hsinks, hrounds, halive⟩ := mainLoop_eq tables u c sinks arrivals
  have hcases : Bank.Quiet (Sink.dispatch tables) Deed.panicked sinks _ ∨ _ :=
    Bank.quiet_or_stopsAt sinks (offersOf u c arrivals)
  rcases hcases with quiet | ⟨before, offer, later, p, hoffers, hat⟩
  · obtain ⟨hcomplete, _, hsaw⟩ := Bank.offerAll_of_quiet quiet
    refine .inl ⟨halive.trans hcomplete, fun i s hs => ?_, fun i s hs => ?_⟩
    · simp only [hsinks, Option.toList_none, ite_self, List.append_nil]
      exact (hsaw i s hs).state
    · simp only [hrounds, Option.toList_none, ite_self, List.append_nil]
      exact (hsaw i s hs).emitted
  · obtain ⟨hcomplete, hsaw⟩ := Bank.offerAll_of_stopsAt later hat
    obtain ⟨sink, hsink, hstop⟩ := hat.stopper
    obtain ⟨s, rfl⟩ := ntfy_of_panicked hstop
    rw [← hoffers] at hcomplete hsaw
    have hseen : ∀ i, (if i ≤ p then before ++ [offer] else before) =
        before ++ if i ≤ p then (some offer).toList else [] := by
      intro i
      split
      · rfl
      · rw [List.append_nil]
    refine .inr ⟨halive.trans hcomplete, before, offer, later, p, s, hoffers, hsink, hstop,
      fun i t ht => ?_, fun i t ht => ?_⟩
    · rw [hsinks, ← hseen]
      exact (hsaw i t ht).state
    · rw [hrounds, ← hseen]
      exact (hsaw i t ht).emitted

/-- What a sink has done in a run is what it makes of the first of the dispatches. -/
theorem column_eq (tables : TextTables) (u : UnicodeClasses) (c : Classifier) {sinks : List Sink}
    (arrivals : List Arrival) {i : Nat} {s : Sink} (hs : sinks[i]? = some s) :
    ∃ seen later, offersOf u c arrivals = seen ++ later ∧
      Bank.column i (mainLoop tables u c sinks arrivals).rounds =
        outputs (Sink.dispatch tables) s seen := by
  rcases mainLoop_cases tables u c sinks arrivals with ⟨_, hsaw⟩ |
    ⟨_, before, offer, later, p, _, hoffers, _, _, hsaw⟩
  · refine ⟨_, [], (List.append_nil _).symm, ?_⟩
    rw [hsaw.done i s hs, Option.toList_none, ite_self, List.append_nil]
  · rw [hsaw.done i s hs, hoffers]
    split
    · exact ⟨before ++ [offer], later, by simp, rfl⟩
    · exact ⟨before, offer :: later, rfl, by rw [List.append_nil]⟩

/-- A run that does not panic shows every dispatch to every sink. -/
theorem saw_of_alive {tables : TextTables} {u : UnicodeClasses} {c : Classifier}
    {sinks : List Sink} {arrivals : List Arrival}
    (alive : (mainLoop tables u c sinks arrivals).alive = true) {i : Nat} {s : Sink}
    (hs : sinks[i]? = some s) :
    (mainLoop tables u c sinks arrivals).sinks[i]? =
        some (after (Sink.dispatch tables) s (offersOf u c arrivals)) ∧
      Bank.column i (mainLoop tables u c sinks arrivals).rounds =
        outputs (Sink.dispatch tables) s (offersOf u c arrivals) := by
  rcases mainLoop_cases tables u c sinks arrivals with ⟨_, hsaw⟩ | ⟨hdead, _⟩
  · have hstate := hsaw.state i s hs
    have hdone := hsaw.done i s hs
    rw [Option.toList_none, ite_self, List.append_nil] at hstate hdone
    exact ⟨hstate, hdone⟩
  · rw [alive] at hdead
    cases hdead

/-- With the same messages and the same surroundings, a sink does the same whatever other
sinks it stands among, up to a panic of one of them. -/
theorem sinks_isolated (tables : TextTables) (u : UnicodeClasses) (c : Classifier)
    (sinks others : List Sink) (arrivals : List Arrival) (i j : Nat) (s : Sink)
    (here : sinks[i]? = some s) (there : others[j]? = some s) :
    (Bank.column i (mainLoop tables u c sinks arrivals).rounds <+:
        Bank.column j (mainLoop tables u c others arrivals).rounds ∨
      Bank.column j (mainLoop tables u c others arrivals).rounds <+:
        Bank.column i (mainLoop tables u c sinks arrivals).rounds) ∧
    ((mainLoop tables u c sinks arrivals).alive = true →
      (mainLoop tables u c others arrivals).alive = true →
        Bank.column i (mainLoop tables u c sinks arrivals).rounds =
          Bank.column j (mainLoop tables u c others arrivals).rounds ∧
        (mainLoop tables u c sinks arrivals).sinks[i]? =
          (mainLoop tables u c others arrivals).sinks[j]?) := by
  constructor
  · obtain ⟨seen, later, hoffers, hcolumn⟩ := column_eq tables u c arrivals here
    obtain ⟨seen', later', hoffers', hcolumn'⟩ := column_eq tables u c arrivals there
    have extends_outputs : ∀ {xs ys : List Offer}, xs <+: ys →
        outputs (Sink.dispatch tables) s xs <+: outputs (Sink.dispatch tables) s ys := by
      rintro xs _ ⟨rest, rfl⟩
      rw [outputs_append]
      exact List.prefix_append _ _
    have hseen : seen <+: offersOf u c arrivals := ⟨later, hoffers.symm⟩
    have hseen' : seen' <+: offersOf u c arrivals := ⟨later', hoffers'.symm⟩
    rw [hcolumn, hcolumn']
    exact (List.prefix_or_prefix_of_prefix hseen hseen').imp extends_outputs extends_outputs
  · intro alive alive'
    obtain ⟨hstate, hcolumn⟩ := saw_of_alive alive here
    obtain ⟨hstate', hcolumn'⟩ := saw_of_alive alive' there
    exact ⟨hcolumn.trans hcolumn'.symm, hstate.trans hstate'.symm⟩

/-- All instants of the occasion are the one the sinks were made at. -/
def atStart : Occasion where
  pushNow := 0
  post := .answered 200 "200 OK" none
  dedupNow := 0
  takeNow := 0
  ordered := le_rfl
  mail := .exited (some 0)
  available := 1
  transcript := ⟨.ok (), .ok (), .ok ()⟩
  started := 0

def fatalArrival : Arrival where
  raw := "[12:00] [FATAL] [storage] disk full"
  now := 0
  occasion _ := atStart

/-- A mail sink behind the logger, and by itself. -/
theorem sinks_isolated_fatal :
    Bank.column 1 (mainLoop asciiTables .ascii .new
      [.logger, .email (.new "ops" "alerts" "mail" 0)] [fatalArrival]).rounds =
        Bank.column 0 (mainLoop asciiTables .ascii .new
          [.email (.new "ops" "alerts" "mail" 0)] [fatalArrival]).rounds :=
  ((sinks_isolated asciiTables .ascii .new [.logger, .email (.new "ops" "alerts" "mail" 0)]
    [.email (.new "ops" "alerts" "mail" 0)] [fatalArrival] 1 0 _ rfl rfl).2
    (by decide +kernel) (by decide +kernel)).1

end Runs

section Trait
variable {tables : TextTables}

/-- What a sink that did not panic has returned. -/
def Deed.result (deed : Deed) : Except SinkError Unit :=
  match deed.ending with
  | .returned result => result
  | .panicked => .ok ()

/-- The sink at one place of the fan-out, behind the trait. -/
def sinkAt (tables : TextTables) (occasion : Occasion) (i : Nat) : AlertSink (List Sink) where
  dispatch alert sinks :=
    match sinks[i]? with
    | none => (sinks, .ok ())
    | some sink =>
      let done := sink.dispatch tables ⟨alert, occasion⟩
      (sinks.set i done.1, done.2.result)

theorem Deed.failed_eq (deed : Deed) : deed.failed = !deed.result.isOk := by
  rw [failed, result]
  cases deed.ending with
  | panicked => rfl
  | returned result =>
    cases result with
    | error e => rfl
    | ok done => rfl

theorem dispatchEach_cons {World : Type*} (alert : Alert) (sink : AlertSink World)
    (rest : List (AlertSink World)) (world : World) (failures : Nat) :
    MultiSink.dispatchEach alert (sink :: rest) world failures =
      MultiSink.dispatchEach alert rest (sink.dispatch alert world).1
        (failures + (!(sink.dispatch alert world).2.isOk).toNat) := by
  rw [MultiSink.dispatchEach]
  cases (sink.dispatch alert world).2 with
  | error e => rfl
  | ok done => rfl

theorem dispatchEach_sinkAt (alert : Alert) (occasion : Occasion) (before sinks : List Sink)
    (failures : Nat)
    (quiet : ∀ sink ∈ sinks, (sink.dispatch tables ⟨alert, occasion⟩).2.panicked = false) :
    MultiSink.dispatchEach alert
        ((List.range' before.length sinks.length).map (sinkAt tables occasion))
        (before ++ sinks) failures =
      (before ++ (fanOut tables ⟨alert, occasion⟩ sinks).bank,
        failures + (fanOut tables ⟨alert, occasion⟩ sinks).emitted.countP Deed.failed) := by
  induction sinks generalizing before failures with
  | nil => rfl
  | cons sink rest ih =>
    obtain ⟨hsink, hrest⟩ := List.forall_mem_cons.mp quiet
    have hnext := ih (before ++ [(sink.dispatch tables ⟨alert, occasion⟩).1])
      (failures + ((sink.dispatch tables ⟨alert, occasion⟩).2.failed).toNat) hrest
    have hat : (before ++ sink :: rest)[before.length]? = some sink := by simp
    have hset : (before ++ sink :: rest).set before.length
        (sink.dispatch tables ⟨alert, occasion⟩).1 =
          before ++ [(sink.dispatch tables ⟨alert, occasion⟩).1] ++ rest := by simp
    have hdispatch : (sinkAt tables occasion before.length).dispatch alert
        (before ++ sink :: rest) =
          (before ++ [(sink.dispatch tables ⟨alert, occasion⟩).1] ++ rest,
            (sink.dispatch tables ⟨alert, occasion⟩).2.result) := by
      simp only [sinkAt, hat, hset]
    rw [List.length_append, List.length_singleton] at hnext
    rw [List.length_cons, List.range'_succ, List.map_cons, dispatchEach_cons, hdispatch,
      ← Deed.failed_eq, hnext, fanOut, fanOut, Bank.offer, hsink]
    refine Prod.ext ?_ ?_
    · exact List.append_assoc _ _ _
    · dsimp only
      rw [if_neg Bool.false_ne_true, List.countP_cons, Nat.add_assoc, Nat.add_comm (Bool.toNat _)]
      cases (sink.dispatch tables ⟨alert, occasion⟩).2.failed with
      | false => rfl
      | true => rfl

/-- As long as no sink panics, the fan-out is that of `MultiSink` over its sinks. -/
theorem multiSink_dispatch (alert : Alert) (occasion : Occasion) (sinks : List Sink)
    (quiet : ∀ sink ∈ sinks, (sink.dispatch tables ⟨alert, occasion⟩).2.panicked = false) :
    MultiSink.dispatch ⟨(List.range sinks.length).map (sinkAt tables occasion)⟩ alert sinks =
      ((fanOut tables ⟨alert, occasion⟩ sinks).bank,
        multiResult (fanOut tables ⟨alert, occasion⟩ sinks).emitted) := by
  have heach := dispatchEach_sinkAt alert occasion [] sinks 0 quiet
  have hlength : (fanOut tables ⟨alert, occasion⟩ sinks).emitted.length = sinks.length := by
    rw [fanOut, Bank.offer_of_quiet quiet, List.length_map]
  have hempty : (fanOut tables ⟨alert, occasion⟩ sinks).emitted.isEmpty =
      ((List.range sinks.length).map (sinkAt tables occasion)).isEmpty := by
    rw [Bool.eq_iff_iff, List.isEmpty_iff_length_eq_zero, List.isEmpty_iff_length_eq_zero,
      hlength, List.length_map, List.length_range]
  rw [List.length_nil, List.nil_append, Nat.zero_add, List.nil_append, ← List.range_eq_range']
    at heach
  rw [MultiSink.dispatch, heach, multiResult, hlength, hempty]
  dsimp only
  rw [List.length_map, List.length_range]

end Trait

section Logged
variable {tables : TextTables} {u : UnicodeClasses}

/-- What the logger makes of an alert. -/
def loggedDeed (alert : Alert) : Deed := .logged (Logger.AlertOut.ofAlert alert).toJson (.ok ())

theorem outputs_logger (offers : List Offer) : outputs (Sink.dispatch tables) .logger offers =
    (offers.map Offer.alert).map loggedDeed := by
  induction offers with
  | nil => rfl
  | cons offer rest ih =>
    rw [outputs_cons, List.map_cons, List.map_cons, ← ih]
    rfl

/-- The logger comes first and stays there. -/
theorem fanOut_logger (offer : Offer) (rest : List Sink) :
    Bank.offer (Sink.dispatch tables) Deed.panicked offer (.logger :: rest) =
      ⟨.logger :: (Bank.offer (Sink.dispatch tables) Deed.panicked offer rest).bank,
        loggedDeed offer.alert ::
          (Bank.offer (Sink.dispatch tables) Deed.panicked offer rest).emitted,
        (Bank.offer (Sink.dispatch tables) Deed.panicked offer rest).complete⟩ := rfl

theorem rounds_logged (rest : List Sink) (offers : List Offer) :
    ∀ deeds ∈ (Bank.offerAll (Sink.dispatch tables) Deed.panicked (.logger :: rest)
      offers).emitted, ∃ alert others, deeds = loggedDeed alert :: others := by
  induction offers generalizing rest with
  | nil => exact fun deeds mem => absurd mem List.not_mem_nil
  | cons offer offers ih =>
    rw [Bank.offerAll, fanOut_logger]
    dsimp only
    split
    · exact List.forall_mem_cons.mpr ⟨⟨offer.alert, _, rfl⟩, ih _⟩
    · exact List.forall_mem_singleton.mpr ⟨offer.alert, _, rfl⟩

theorem multiResult_logged (alert : Alert) (others : List Deed) :
    multiResult (loggedDeed alert :: others) = .ok () := by
  have hcount : (loggedDeed alert :: others).countP Deed.failed = others.countP Deed.failed := by
    rw [List.countP_cons]
    rfl
  have hle : others.countP Deed.failed ≤ others.length := List.countP_le_length
  rw [multiResult, hcount, if_neg]
  rintro ⟨hall, _⟩
  rw [List.length_cons] at hall
  omega

/-- With the logger in front, every alert of a run is logged once and in order, the alert of a
panic is the last of these, and no fan-out fails, whatever the other sinks are. -/
theorem every_alert_logged (tables : TextTables) (u : UnicodeClasses) (rest : List Sink)
    (arrivals : List Arrival) :
    ∃ dealt lost, Classifier.new.alerts
        (parsedCalls u (arrivals.map fun arrival => (arrival.raw, arrival.now))) = dealt ++ lost ∧
      Bank.column 0 (mainLoop tables u .new (.logger :: rest) arrivals).rounds =
        dealt.map loggedDeed ∧
      ((mainLoop tables u .new (.logger :: rest) arrivals).alive = true → lost = []) ∧
      ((mainLoop tables u .new (.logger :: rest) arrivals).alive = false →
        ∃ alert e, dealt.getLast? = some alert ∧ alert.sampleEvent = some e ∧
          ¬ CutsCleanly e.message) ∧
      ∀ deeds ∈ (mainLoop tables u .new (.logger :: rest) arrivals).rounds,
        multiResult deeds = .ok () := by
  rw [← offersOf_alerts]
  have hresults : ∀ deeds ∈ (mainLoop tables u .new (.logger :: rest) arrivals).rounds,
      multiResult deeds = .ok () := by
    rw [(mainLoop_eq tables u _ _ _).2.1]
    intro deeds mem
    obtain ⟨alert, others, rfl⟩ := rounds_logged rest _ deeds mem
    exact multiResult_logged alert others
  rcases mainLoop_cases tables u .new (.logger :: rest) arrivals with ⟨halive, hsaw⟩ |
    ⟨halive, before, offer, later, p, s, hoffers, _, panicked, hsaw⟩
  · refine ⟨_, [], (List.append_nil _).symm, ?_, fun _ => rfl, fun h => ?_, hresults⟩
    · rw [hsaw.done 0 .logger rfl, Option.toList_none, ite_self, List.append_nil, outputs_logger]
    · rw [halive] at h
      cases h
  · refine ⟨(before ++ [offer]).map Offer.alert, later.map Offer.alert, ?_, ?_, fun h => ?_,
      fun _ => ?_, hresults⟩
    · rw [hoffers, ← List.map_append, List.append_assoc, List.singleton_append]
    · rw [hsaw.done 0 .logger rfl, if_pos (Nat.zero_le p), outputs_logger, Option.toList_some]
    · rw [halive] at h
      cases h
    · obtain ⟨_, e, hsample, hcut⟩ := (panicked_iff s before offer).mp panicked
      refine ⟨offer.alert, e, ?_, hsample, hcut⟩
      rw [List.map_append, List.map_singleton, List.getLast?_concat]

end Logged

end Watchtower.Sinks
