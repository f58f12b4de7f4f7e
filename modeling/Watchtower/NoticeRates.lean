import Watchtower.EmailCap
import Watchtower.Sinks
import Watchtower.TokenRuns

/-!
# How often the daemon notifies

The two limited sinks inside the main loop. Whatever the journal holds and the surroundings
do, the requests and the mails of any interval are bounded by what the buckets of the sinks
give away in it.
-/

namespace Watchtower.Sinks

open AutoClaude Classify Email LinearRefill Machine Ntfy Parse RateLimit TimedLog

/-- A request was made at an instant of an interval. -/
def Deed.requestedIn (lo hi : Instant) : Deed → Bool
  | .pushed now done => done.request.isSome && decide (lo ≤ now ∧ now ≤ hi)
  | _ => false

/-- The mail process was spawned at an instant of an interval. -/
def Deed.mailedIn (lo hi : Instant) : Deed → Bool
  | .mailed now done => done.invocation.isSome && decide (lo ≤ now ∧ now ≤ hi)
  | _ => false

section Pushes
variable {tables : TextTables}

theorem bucket_of_new {url topic : String} {token : Option String} {ratePerMin : Nat}
    {client : Except String Unit} {start : Instant} {s : NtfySink}
    (made : NtfySink.new url topic token ratePerMin client start = .ok s) :
    s.bucket = TokenBucket.new ratePerMin (Duration.fromSecs 60) start := by
  unfold NtfySink.new at made
  split at made
  · cases client with
    | error e => cases made
    | ok _ =>
      cases made
      rfl
  · cases made

theorem pushedFor_request {sink : NtfySink} {push : Push} {granted : Bool}
    (sent : (pushedFor sink push granted).request.isSome = true) : granted = true := by
  cases granted with
  | true => rfl
  | false => cases sent

theorem ite_one_le {p q : Prop} [Decidable p] [Decidable q] (h : p → q) :
    (if p then 1 else 0 : Nat) ≤ if q then 1 else 0 := by
  by_cases hp : p
  · rw [if_pos hp, if_pos (h hp)]
  · rw [if_neg hp]
    exact Nat.zero_le _

theorem countP_grantTimes (p : Instant → Bool) (entries : List (Instant × Bool)) :
    (grantTimes entries).countP p = entries.countP fun entry => p entry.1 && entry.2 := by
  rw [grantTimes, List.countP_reverse, List.countP_map, List.countP_filter]
  rfl

/-- A request has a grant of its instant. -/
theorem requests_le_grants (s : NtfySink) (offers : List Offer) (lo hi : Instant) :
    (outputs (Sink.dispatch tables) (.ntfy s) offers).countP (Deed.requestedIn lo hi) ≤
      (grantTimes (trace TokenBucket.tryTakeAt s.bucket
        (offers.map fun o => o.occasion.pushNow))).countP fun t => lo ≤ t ∧ t ≤ hi := by
  rw [countP_grantTimes]
  induction offers generalizing s with
  | nil => exact Nat.le_refl 0
  | cons offer rest ih =>
    rw [outputs_cons, (ntfy_embeds tables).step_eq, (bucket_embeds s).step_eq, List.map_cons,
      trace_cons, List.countP_cons, List.countP_cons]
    refine Nat.add_le_add (ih _) ?_
    have hsent : Deed.requestedIn lo hi (.pushed offer.occasion.pushNow (pushedFor s offer.push
        (s.bucket.tryTakeAt offer.occasion.pushNow).2)) = true →
        (decide (lo ≤ offer.occasion.pushNow ∧ offer.occasion.pushNow ≤ hi) &&
          (s.bucket.tryTakeAt offer.occasion.pushNow).2) = true := by
      intro h
      rw [Deed.requestedIn, Bool.and_eq_true] at h
      rw [h.2, pushedFor_request h.1]
      rfl
    exact ite_one_le hsent

/-- In any interval of any run a sink makes no more requests than its rate allows a minute
and for the time that passes. -/
theorem pushes_le (tables : TextTables) (u : UnicodeClasses) (c : Classifier)
    (sinks : List Sink) (arrivals : List Arrival) (i : Nat) (url topic : String)
    (token : Option String) (ratePerMin : Nat) (client : Except String Unit) (start : Instant)
    (s : NtfySink) (made : NtfySink.new url topic token ratePerMin client start = .ok s)
    (place : sinks[i]? = some (.ntfy s))
    (forward : Forward start ((offersOf u c arrivals).map fun o => o.occasion.pushNow))
    (lo hi : Instant) (span : lo ≤ hi) :
    (((Bank.column i (mainLoop tables u c sinks arrivals).rounds).countP
      (Deed.requestedIn lo hi) : Nat) : ℚ) ≤
        ratePerMin + ratePerMin * (hi - lo) / Duration.fromSecs 60 := by
  have hbucket : s.bucket = TokenBucket.new ratePerMin (Duration.fromSecs 60) start :=
    bucket_of_new made
  obtain ⟨seen, later, hoffers, hcolumn⟩ := column_eq tables u c arrivals place
  rw [hoffers, List.map_append] at forward
  have hminute : 0 < Duration.fromSecs 60 := by decide
  rw [hcolumn]
  refine le_trans (Nat.cast_le.mpr (requests_le_grants s seen lo hi)) ?_
  rw [hbucket]
  exact grants_le hminute forward.past span

/-- The second line comes in the cooldown of the first. -/
theorem pushes_le_fatal :
    (Bank.column 0 (mainLoop asciiTables .ascii .new [.ntfy localSink]
      [fatalArrival, fatalArrival]).rounds).countP (Deed.requestedIn 0 0) = 1 ∧
    (((Bank.column 0 (mainLoop asciiTables .ascii .new [.ntfy localSink]
      [fatalArrival, fatalArrival]).rounds).countP (Deed.requestedIn 0 0) : Nat) : ℚ) ≤
        (10 : Nat) + (10 : Nat) * ((0 : Nat) - (0 : Nat)) / Duration.fromSecs 60 :=
  ⟨by decide +kernel, pushes_le asciiTables .ascii .new [.ntfy localSink]
    [fatalArrival, fatalArrival] 0 "http://127.0.0.1:8090" "watchtower" none 10 (.ok ()) 0 localSink
    rfl rfl (by decide +kernel) 0 0 le_rfl⟩

end Pushes

section Mails

/-- Every mail was funded by the daily bucket. -/
theorem funded_after (toAddr fromAddr bin : String) {start : Instant} (calls : List Delivery)
    (chron : Chronological start calls) :
    Funded (dailyCap : ℚ) (dailyCap / day) ((invocationTimes (trace EmailSink.dispatch
      (.new toAddr fromAddr bin start) calls)).reverse.map Nat.cast) := by
  induction calls using List.reverseRecOn with
  | nil => exact trivial
  | append_singleton past call ih =>
    obtain ⟨_, hbucket⟩ := tracks_after toAddr fromAddr bin past chron.past
    have hpast := trace_takeNow_le (.new toAddr fromAddr bin start) chron
    have htoken := hbucket.hasToken_iff (chron.after_start call (by simp)) hpast
    rw [trace_concat, invocationTimes_concat]
    split
    · next hsome =>
      have hlevel := htoken.mp ((invocation_isSome_iff _ _).mp hsome).2
      rw [TokenBucket.levelAt, TokenBucket.rate, hbucket.capacity, hbucket.interval] at hlevel
      rw [List.reverse_append, List.reverse_singleton, List.singleton_append, List.map_cons]
      exact ⟨hlevel, ih chron.past⟩
    · rw [List.append_nil]
      exact ih chron.past

theorem mails_eq (tables : TextTables) (sink : EmailSink) (offers : List Offer)
    (lo hi : Instant) :
    (outputs (Sink.dispatch tables) (.email sink) offers).countP (Deed.mailedIn lo hi) =
      (invocationTimes (trace EmailSink.dispatch sink (offers.map Offer.delivery))).countP
        fun t => lo ≤ t ∧ t ≤ hi := by
  induction offers generalizing sink with
  | nil => rfl
  | cons offer rest ih =>
    rw [outputs_cons, (email_embeds tables).step_eq, List.map_cons, trace_cons, List.countP_cons,
      ih, invocationTimes, invocationTimes, List.filterMap_cons]
    cases hdone : (sink.dispatch offer.delivery).2.invocation with
    | none => simp [Deed.mailedIn, hdone]
    | some invocation =>
      simp only [Deed.mailedIn, hdone, Option.isSome_some, Bool.true_and, Option.map_some,
        List.countP_cons]
      rfl

/-- A mail is about a page. -/
theorem page_of_invocation {sink : EmailSink} {call : Delivery} {invocation : Invocation}
    (h : (sink.dispatch call).2.invocation = some invocation) :
    call.alert.severity = .page ∧ invocation = sink.invocation call.alert := by
  rcases sink.dispatch_cases call with ⟨_, hd⟩ | ⟨_, _, hd⟩ | ⟨_, _, hd⟩ | ⟨hadmits, _, hd⟩
  · rw [hd] at h
    cases h
  · rw [hd] at h
    cases h
  · rw [hd] at h
    cases h
  · rw [hd] at h
    exact ⟨EmailSink.page_of_admits hadmits, (Option.some.inj h).symm⟩

/-- The addresses and the program of a sink stay what they are. -/
theorem after_invocation (sink : EmailSink) (calls : List Delivery) :
    (after EmailSink.dispatch sink calls).invocation = sink.invocation := by
  refine after_invariant EmailSink.dispatch (P := fun s => s.invocation = sink.invocation) rfl
    (fun s call h => ?_) calls
  rw [← h]
  rcases s.dispatch_cases call with ⟨_, hd⟩ | ⟨_, _, hd⟩ | ⟨_, _, hd⟩ | ⟨_, _, hd⟩
  · rw [hd]
  · rw [hd]
    rfl
  · rw [hd]
    rfl
  · rw [hd]
    rfl

/-- In a run of the main loop every mail is the one about a page of the classifier; an interval
holds no more mails than four and what the daily bucket regains in it, a rolling day seven. -/
theorem mails_le (tables : TextTables) (u : UnicodeClasses) (c : Classifier)
    (sinks : List Sink) (arrivals : List Arrival) (i : Nat) (toAddr fromAddr bin : String)
    (start : Instant) (place : sinks[i]? = some (.email (.new toAddr fromAddr bin start)))
    (chron : Chronological start ((offersOf u c arrivals).map Offer.delivery)) :
    (∀ now done invocation,
      .mailed now done ∈ Bank.column i (mainLoop tables u c sinks arrivals).rounds →
      done.invocation = some invocation → ∃ offer ∈ offersOf u c arrivals,
        offer.alert.severity = .page ∧ now = offer.occasion.takeNow ∧
        invocation = (EmailSink.new toAddr fromAddr bin start).invocation offer.alert) ∧
    (∀ lo hi : Instant, lo ≤ hi →
      (((Bank.column i (mainLoop tables u c sinks arrivals).rounds).countP
        (Deed.mailedIn lo hi) : Nat) : ℚ) ≤ dailyCap + dailyCap * (hi - lo) / day) ∧
    ∀ s : Instant, (Bank.column i (mainLoop tables u c sinks arrivals).rounds).countP
      (Deed.mailedIn s (s + day - 1)) ≤ 7 := by
  obtain ⟨seen, later, hoffers, hcolumn⟩ := column_eq tables u c arrivals place
  rw [hcolumn, hoffers]
  rw [hoffers, List.map_append] at chron
  have hbound : ∀ lo hi : Instant, lo ≤ hi → (((outputs (Sink.dispatch tables)
      (.email (.new toAddr fromAddr bin start)) seen).countP (Deed.mailedIn lo hi) : Nat) : ℚ) ≤
        dailyCap + dailyCap * (hi - lo) / day := by
    intro lo hi span
    have hcount := Funded.count_le (dailyCap : ℚ) (dailyCap / day) (Nat.cast_nonneg _)
      (div_nonneg (Nat.cast_nonneg _) (Nat.cast_nonneg _))
      (funded_after toAddr fromAddr bin _ chron.past) (Nat.cast_le.mpr span : (lo : ℚ) ≤ hi)
    rw [List.countP_map, List.countP_reverse] at hcount
    rw [mails_eq, mul_div_right_comm]
    simpa [Function.comp_def] using hcount
  refine ⟨fun now done invocation mem hinvocation => ?_, hbound, fun s => ?_⟩
  · obtain ⟨past, offer, others, hseen, hdeed⟩ := (mem_outputs _).mp mem
    rw [(email_embeds tables).after_eq, (email_embeds tables).step_eq] at hdeed
    obtain ⟨rfl, rfl⟩ := Deed.mailed.inj hdeed
    obtain ⟨hpage, heq⟩ := page_of_invocation hinvocation
    refine ⟨offer, by simp [hseen], hpage, rfl, ?_⟩
    rw [heq, after_invocation]
    rfl
  · have hone : 1 ≤ day := by decide
    have hday : (0 : ℚ) < day := Nat.cast_pos.mpr hone
    have hwindow := hbound s (s + day - 1) (Nat.le_sub_of_add_le (Nat.add_le_add_left hone s))
    have hwidth : ((s + day - 1 : Nat) : ℚ) - s = day - 1 := by
      rw [Nat.cast_sub (Nat.le_trans hone (Nat.le_add_left day s)), Nat.cast_add, Nat.cast_one]
      ring
    have hless : (dailyCap : ℚ) * (day - 1) / day < 4 := by
      rw [div_lt_iff₀ hday, dailyCap, Nat.cast_ofNat]
      linarith
    have hcap : (dailyCap : ℚ) = 4 := rfl
    rw [hwidth] at hwindow
    rw [← Nat.lt_succ_iff, ← Nat.cast_lt (α := ℚ)]
    refine lt_of_le_of_lt hwindow ?_
    rw [hcap] at hless ⊢
    push_cast
    linarith

theorem fatal_chronological : Chronological 0
    ((offersOf .ascii .new [fatalArrival]).map Offer.delivery) := by
  refine ⟨fun call _ => Nat.zero_le _, ?_⟩
  have hone : ((offersOf .ascii .new [fatalArrival]).map Offer.delivery).length = 1 := by
    decide +kernel
  obtain ⟨call, hcall⟩ := List.length_eq_one_iff.mp hone
  rw [hcall]
  exact List.pairwise_singleton _ _

theorem mails_le_fatal :
    (Bank.column 1 (mainLoop asciiTables .ascii .new
      [.logger, .email (.new "ops" "alerts" "mail" 0)]
      [fatalArrival]).rounds).countP (Deed.mailedIn 0 (0 + day - 1)) = 1 ∧
    (Bank.column 1 (mainLoop asciiTables .ascii .new
      [.logger, .email (.new "ops" "alerts" "mail" 0)]
      [fatalArrival]).rounds).countP (Deed.mailedIn 0 (0 + day - 1)) ≤ 7 :=
  ⟨by decide +kernel, (mails_le asciiTables .ascii .new
    [.logger, .email (.new "ops" "alerts" "mail" 0)] [fatalArrival] 1 "ops" "alerts" "mail" 0 rfl
    fatal_chronological).2.2 0⟩

end Mails

end Watchtower.Sinks
