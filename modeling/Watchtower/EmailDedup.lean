import Watchtower.AlertSpacing
import Watchtower.EmailCap
import Watchtower.Foundation.Text

/-!
# What the dedup suppresses

The dedup records a call when it passes, before the daily cap and the mail process
have their say. Which suppressions are backed by a mail is therefore decided by
what became of the call that is on record, and by the text of the dedup key.
-/

namespace Watchtower.Email

open Classify Machine RateLimit Text TimedGate

def SamePair (first second : Alert) : Prop :=
  first.rule = second.rule ∧ first.key = second.key

/-- The mail process was spawned and the dispatch returned `Ok`. -/
def Delivered (entry : Delivery × Dispatched) : Prop :=
  entry.2.invocation.isSome = true ∧ entry.2.result.isOk = true

instance (entry : Delivery × Dispatched) : Decidable (Delivered entry) :=
  inferInstanceAs (Decidable (_ ∧ _))

/-- The entry was let pass by the dedup less than the window before `now`. -/
def PassedWithin (now : Instant) (entry : Delivery × Dispatched) : Prop :=
  PassedGate entry ∧ now < entry.1.dedupNow + dedupWindow

/-- Two entries on record at `now` under one key are one. -/
def OneRecord (now : Instant) (first second : Delivery × Dispatched) : Prop :=
  PassedWithin now first → PassedWithin now second →
    dedupKey first.1.alert = dedupKey second.1.alert → first = second

instance (now : Instant) : Std.Symm (OneRecord now) :=
  ⟨fun _ _ h hsecond hfirst hkey => (h hfirst hsecond hkey.symm).symm⟩

theorem SamePair.dedupKey_eq {first second : Alert} (same : SamePair first second) :
    dedupKey first = dedupKey second := by
  rw [dedupKey, dedupKey, same.1, same.2]

theorem suppressed_iff (sink : EmailSink) (call : Delivery) :
    (sink.dispatch call).2.suppressed = some .perKeyDedup ↔
      call.alert.severity = .page ∧ sink.admits call = false := by
  rcases sink.dispatch_cases call with ⟨hpage, h⟩ | ⟨hpage, hadmits, h⟩ | ⟨hadmits, _, h⟩ |
    ⟨hadmits, _, h⟩
  · simp [h, hpage]
  · simp [h, hpage, hadmits]
  · simp [h, hadmits]
  · simp [h, hadmits]

/-- A delivery is an admitted call with a token whose mail process exits with zero. -/
theorem delivered_iff (sink : EmailSink) (call : Delivery) :
    Delivered (call, (sink.dispatch call).2) ↔
      sink.admits call = true ∧ sink.hasToken call = true ∧ call.mail = .exited (some 0) := by
  rw [Delivered, invocation_isSome_iff, and_assoc]
  refine and_congr_right fun hadmits => and_congr_right fun htoken => ?_
  rw [← sink.mailResult_isOk call.mail]
  rcases sink.dispatch_cases call with ⟨hpage, _⟩ | ⟨_, hno, _⟩ | ⟨_, hno, _⟩ | ⟨_, _, h⟩
  · exact absurd (EmailSink.page_of_admits hadmits) hpage
  · rw [hadmits] at hno
    cases hno
  · rw [htoken] at hno
    cases hno
  · rw [h]

section Run
variable {toAddr fromAddr bin : String} {start : Instant} {past : List Delivery}
variable {call : Delivery}

/-- Calls that passed under one key did so a window apart. -/
theorem passed_apart (calls : List Delivery) (chron : Chronological start calls) :
    (trace EmailSink.dispatch (.new toAddr fromAddr bin start) calls).Pairwise
      fun first second => PassedGate first → PassedGate second →
        dedupKey first.1.alert = dedupKey second.1.alert →
        first.1.dedupNow + dedupWindow ≤ second.1.dedupNow := by
  have apart := (tracks_after toAddr fromAddr bin calls chron).1.apart
  rw [Apart, passes, List.pairwise_filterMap] at apart
  refine apart.imp fun h hfirst hsecond hkey => ?_
  exact h _ (if_pos hfirst) _ (if_pos hsecond) hkey

theorem oneRecord (chron : Chronological start (past ++ [call]))
    {first second : Delivery × Dispatched}
    (hfirst : first ∈ trace EmailSink.dispatch (.new toAddr fromAddr bin start) past)
    (hsecond : second ∈ trace EmailSink.dispatch (.new toAddr fromAddr bin start) past) :
    OneRecord call.dedupNow first second := by
  have htimes := trace_takeNow_le (.new toAddr fromAddr bin start) chron
  have hpairs : (trace EmailSink.dispatch (.new toAddr fromAddr bin start) past).Pairwise
      (OneRecord call.dedupNow) := by
    refine (passed_apart past chron.past).imp_of_mem fun _ mem apart hpast hnext hkey => ?_
    have hgap := apart hpast.1 hnext.1 hkey
    have hle := le_trans (Delivery.ordered _) (htimes _ mem)
    exact absurd (le_trans hgap hle) (not_le.mpr hpast.2)
  exact hpairs.forall_of_forall (fun _ _ _ _ _ => rfl) hfirst hsecond

/-- A page is suppressed by the dedup exactly when a call is on record under its key. -/
theorem suppressed_iff_recent (chron : Chronological start (past ++ [call])) :
    ((after EmailSink.dispatch (.new toAddr fromAddr bin start) past).dispatch
        call).2.suppressed = some .perKeyDedup ↔
      call.alert.severity = .page ∧
      ∃ entry ∈ trace EmailSink.dispatch (.new toAddr fromAddr bin start) past,
        PassedWithin call.dedupNow entry ∧
          dedupKey entry.1.alert = dedupKey call.alert := by
  have hgate := (tracks_after toAddr fromAddr bin past chron.past).1
  have hadmits := hgate.admits_iff (trace_takeNow_le (.new toAddr fromAddr bin start) chron)
  rw [suppressed_iff, ← Bool.not_eq_true, hadmits]
  constructor
  · rintro ⟨hpage, hnot⟩
    have hblocked := not_not.mp fun hfree => hnot ⟨hpage, hfree⟩
    obtain ⟨entry, mem, hpassed, hkey, hrecent⟩ := blocked_passes_iff.mp hblocked
    exact ⟨hpage, entry, mem, ⟨hpassed, hrecent⟩, hkey⟩
  · rintro ⟨hpage, entry, mem, ⟨hpassed, hrecent⟩, hkey⟩
    exact ⟨hpage, fun h => h.2 (blocked_passes_iff.mpr ⟨entry, mem, hpassed, hkey, hrecent⟩)⟩

end Run

/-- A suppressed call is backed by a mail for its pair less than the window ago, and no
call of the pair that is on record was dropped by the cap or failed. -/
structure Justified (past : List (Delivery × Dispatched)) (call : Delivery) : Prop where
  mailed : ∃ entry ∈ past, SamePair entry.1.alert call.alert ∧
    call.dedupNow < entry.1.dedupNow + dedupWindow ∧ Delivered entry
  no_failure : ∀ entry ∈ past, SamePair entry.1.alert call.alert →
    PassedWithin call.dedupNow entry →
    entry.2.suppressed ≠ some .dailyCap ∧ entry.2.result.isOk = true

/-- A call suppressed after a run is justified by the run. -/
def SuppressionJustified (sink : EmailSink) (past : List Delivery) (call : Delivery) : Prop :=
  ((after EmailSink.dispatch sink past).dispatch call).2.suppressed = some .perKeyDedup →
    Justified (trace EmailSink.dispatch sink past) call

/-- Whatever the sink admitted under the key of a page, less than the window before it,
is of its pair, found a token and was mailed without an error. -/
def RecordMailed (sink : EmailSink) (past : List Delivery) (call : Delivery) : Prop :=
  call.alert.severity = .page → ∀ before first later, past = before ++ first :: later →
    (after EmailSink.dispatch sink before).admits first = true →
    dedupKey first.alert = dedupKey call.alert →
    call.dedupNow < first.dedupNow + dedupWindow →
    SamePair first.alert call.alert ∧
      (after EmailSink.dispatch sink before).hasToken first = true ∧
      first.mail = .exited (some 0)

theorem Delivered.passedGate {sink : EmailSink} {call : Delivery}
    (delivered : Delivered (call, (sink.dispatch call).2)) :
    PassedGate (call, (sink.dispatch call).2) :=
  (sink.passedGate_iff call).mpr ((delivered_iff sink call).mp delivered).1

theorem Delivered.not_dropped {sink : EmailSink} {call : Delivery}
    (delivered : Delivered (call, (sink.dispatch call).2)) :
    (sink.dispatch call).2.suppressed ≠ some .dailyCap := by
  obtain ⟨_, htoken, _⟩ := (delivered_iff sink call).mp delivered
  rcases sink.dispatch_cases call with ⟨_, h⟩ | ⟨_, _, h⟩ | ⟨_, hno, _⟩ | ⟨_, _, h⟩
  · simp [h]
  · simp [h]
  · rw [htoken] at hno
    cases hno
  · simp [h]

section Justification
variable {toAddr fromAddr bin : String} {start : Instant} {past : List Delivery}
variable {call : Delivery}

/-- A call on record under the key of a justified one is the call that was mailed. -/
theorem recordMailed_of_justified (chron : Chronological start (past ++ [call]))
    (justified : SuppressionJustified (.new toAddr fromAddr bin start) past call) :
    RecordMailed (.new toAddr fromAddr bin start) past call := by
  intro hpage before first later hpast hadmits hkey hrecent
  have hmem := (mem_trace EmailSink.dispatch (s := .new toAddr fromAddr bin start)).mpr
    ⟨before, first, later, hpast, rfl⟩
  have hpassed := (EmailSink.passedGate_iff _ first).mpr hadmits
  have hsuppressed := (suppressed_iff_recent chron).mpr
    ⟨hpage, _, hmem, ⟨hpassed, hrecent⟩, hkey⟩
  obtain ⟨entry, hentry, hsame, hwithin, hdelivered⟩ := (justified hsuppressed).mailed
  obtain ⟨before', mailed, later', _, rfl⟩ := (mem_trace EmailSink.dispatch).mp hentry
  have hone := oneRecord chron hmem hentry ⟨hpassed, hrecent⟩
    ⟨hdelivered.passedGate, hwithin⟩ (hkey.trans hsame.dedupKey_eq.symm)
  rw [← hone] at hdelivered hsame
  obtain ⟨_, htoken, hmail⟩ := (delivered_iff _ first).mp hdelivered
  exact ⟨hsame, htoken, hmail⟩

theorem justified_of_recordMailed (chron : Chronological start (past ++ [call]))
    (mailed : RecordMailed (.new toAddr fromAddr bin start) past call) :
    SuppressionJustified (.new toAddr fromAddr bin start) past call := by
  intro hsuppressed
  obtain ⟨hpage, entry, hentry, ⟨hpassed, hrecent⟩, hkey⟩ :=
    (suppressed_iff_recent chron).mp hsuppressed
  obtain ⟨before, first, later, hpast, rfl⟩ := (mem_trace EmailSink.dispatch).mp hentry
  have hadmits := (EmailSink.passedGate_iff _ first).mp hpassed
  obtain ⟨hsame, htoken, hmail⟩ := mailed hpage before first later hpast hadmits hkey hrecent
  have hdelivered := (delivered_iff _ first).mpr ⟨hadmits, htoken, hmail⟩
  refine ⟨⟨_, hentry, hsame, hrecent, hdelivered⟩, fun other hother hpair hon => ?_⟩
  have hone := oneRecord chron hother hentry hon ⟨hpassed, hrecent⟩
    (hpair.dedupKey_eq.trans hkey.symm)
  rw [hone]
  exact ⟨hdelivered.not_dropped, hdelivered.2⟩

end Justification

/-- Every suppression of a run is justified exactly when whatever the sink admitted less
than the window before a page of the same key was of its pair and was mailed. -/
theorem suppression_justified_iff (toAddr fromAddr bin : String) (start : Instant)
    (calls : List Delivery) (chron : Chronological start calls) :
    (∀ past call later, calls = past ++ call :: later →
      SuppressionJustified (.new toAddr fromAddr bin start) past call) ↔
    ∀ past call later, calls = past ++ call :: later →
      RecordMailed (.new toAddr fromAddr bin start) past call := by
  have hcall : ∀ past call later, calls = past ++ call :: later →
      Chronological start (past ++ [call]) := by
    rintro past call later rfl
    rw [List.append_cons] at chron
    exact chron.past
  constructor
  · intro h past call later heq
    exact recordMailed_of_justified (hcall past call later heq) (h past call later heq)
  · intro h past call later heq
    exact justified_of_recordMailed (hcall past call later heq) (h past call later heq)

theorem suppression_justified_iff_repeat :
    (∀ past call later, [pageAt "a" 0, pageAt "a" 1] = past ++ call :: later →
      SuppressionJustified (.new "ops" "alerts" "mail" 0) past call) ↔
    ∀ past call later, [pageAt "a" 0, pageAt "a" 1] = past ++ call :: later →
      RecordMailed (.new "ops" "alerts" "mail" 0) past call :=
  suppression_justified_iff "ops" "alerts" "mail" 0 [pageAt "a" 0, pageAt "a" 1]
    (pageAt_chronological [("a", 0), ("a", 1)] (by decide))

/-- A page whose mail process cannot be spawned. -/
def unspawned (key : String) (hour : Nat) : Delivery :=
  { pageAt key hour with mail := .spawnFailed "No such file or directory" }

/-- The failed page silences the next one of its pair, though no mail was handed over. -/
theorem unjustified_suppression :
    ¬ ∀ (toAddr fromAddr bin : String) (start : Instant) (calls : List Delivery),
      Chronological start calls → ∀ past call later, calls = past ++ call :: later →
        SuppressionJustified (.new toAddr fromAddr bin start) past call := by
  intro all
  have chron : Chronological 0 [unspawned "a" 0, pageAt "a" 1] :=
    ⟨fun call _ => Nat.zero_le _, by decide⟩
  have hsuppressed : ((after EmailSink.dispatch (.new "ops" "alerts" "mail" 0)
      [unspawned "a" 0]).dispatch (pageAt "a" 1)).2.suppressed = some .perKeyDedup := by
    decide +kernel
  have hnone : ∀ entry ∈ trace EmailSink.dispatch (.new "ops" "alerts" "mail" 0)
      [unspawned "a" 0], ¬ Delivered entry := by decide +kernel
  obtain ⟨entry, mem, _, _, hdelivered⟩ :=
    (all "ops" "alerts" "mail" 0 _ chron [unspawned "a" 0] (pageAt "a" 1) [] rfl
      hsuppressed).mailed
  exact hnone entry mem hdelivered

/-- Some run of the classifier emits the alert. -/
def Emitted (alert : Alert) : Prop := ∃ calls, alert ∈ Classifier.new.alerts calls

/-- The separator stands for itself: no rule name has a colon, whatever the keys have. -/
theorem samePair_of_dedupKey {first second : Alert} (hfirst : Emitted first)
    (hsecond : Emitted second) (h : dedupKey first = dedupKey second) :
    SamePair first second := by
  obtain ⟨_, hfirst⟩ := hfirst
  obtain ⟨_, hsecond⟩ := hsecond
  have hcolon : ∀ rule ∈ builtinRules, ':' ∉ rule.name.toList := by decide
  obtain ⟨rule, mem, hrule⟩ := rule_of_mem_alerts builtinTable hfirst
  obtain ⟨rule', mem', hrule'⟩ := rule_of_mem_alerts builtinTable hsecond
  have hlist : first.rule.toList ++ ':' :: ':' :: first.key.toList =
      second.rule.toList ++ ':' :: ':' :: second.key.toList := by
    simpa [dedupKey] using congrArg String.toList h
  have hclean : ':' ∉ first.rule.toList := hrule ▸ hcolon rule mem
  have hclean' : ':' ∉ second.rule.toList := hrule' ▸ hcolon rule' mem'
  obtain ⟨hname, hkey⟩ := append_separator_inj hclean hclean' hlist
  exact ⟨String.toList_injective hname, String.toList_injective (List.cons.inj hkey).2⟩

/-- Only pages are mailed; two mails for a pair are a window apart, by the instants read
under the dedup lock; and a page is not suppressed by what is not of its pair. -/
theorem email_spacing (toAddr fromAddr bin : String) (start : Instant)
    (calls : List Delivery) (chron : Chronological start calls)
    (emitted : ∀ call ∈ calls, Emitted call.alert) :
    (∀ entry ∈ trace EmailSink.dispatch (.new toAddr fromAddr bin start) calls,
      entry.2.invocation.isSome = true → entry.1.alert.severity = .page) ∧
    ((trace EmailSink.dispatch (.new toAddr fromAddr bin start) calls).Pairwise
      fun first second => first.2.invocation.isSome = true →
        second.2.invocation.isSome = true → SamePair first.1.alert second.1.alert →
        first.1.dedupNow + dedupWindow ≤ second.1.dedupNow) ∧
    ∀ past call later, calls = past ++ call :: later → call.alert.severity = .page →
      (∀ entry ∈ trace EmailSink.dispatch (.new toAddr fromAddr bin start) past,
        PassedGate entry → SamePair entry.1.alert call.alert →
        entry.1.dedupNow + dedupWindow ≤ call.dedupNow) →
      ((after EmailSink.dispatch (.new toAddr fromAddr bin start) past).dispatch
        call).2.suppressed ≠ some .perKeyDedup := by
  have hspawned : ∀ entry ∈ trace EmailSink.dispatch (.new toAddr fromAddr bin start) calls,
      entry.2.invocation.isSome = true → PassedGate entry := by
    intro entry mem hsome
    obtain ⟨_, call, _, _, rfl⟩ := (mem_trace EmailSink.dispatch).mp mem
    exact (EmailSink.passedGate_iff _ call).mpr ((invocation_isSome_iff _ call).mp hsome).1
  refine ⟨fun entry mem hsome => (hspawned entry mem hsome).1, ?_, ?_⟩
  · refine (passed_apart calls chron).imp_of_mem ?_
    intro first second hfirst hsecond apart hspawn hspawn' same
    exact apart (hspawned first hfirst hspawn) (hspawned second hsecond hspawn')
      same.dedupKey_eq
  · rintro past call later rfl hpage hclear hsuppressed
    rw [List.append_cons] at chron
    obtain ⟨_, entry, mem, ⟨hpassed, hrecent⟩, hkey⟩ :=
      (suppressed_iff_recent chron.past).mp hsuppressed
    have hentry := emitted entry.1 (List.mem_append_left _ (mem_of_mem_trace mem))
    have hcall := emitted call (List.mem_append_right _ List.mem_cons_self)
    have hle := hclear entry mem hpassed (samePair_of_dedupKey hentry hcall hkey)
    exact absurd hrecent (not_lt.mpr hle)

/-- The alert of the fatal line at time zero, and its delivery at an hour. -/
def fatalAlert : Alert where
  severity := .page
  rule := "fatal_any"
  key := "any"
  count := 1
  windowSecs := 86400
  sampleEvent := some storageFatal
  firedAt := 0

def fatalAt (hour : Nat) : Delivery := { pageAt "any" hour with alert := fatalAlert }

theorem fatalAlert_emitted : Emitted fatalAlert :=
  ⟨[⟨.structured storageFatal, 0⟩], by decide⟩

theorem email_spacing_fatal :
    invocationTimes (trace EmailSink.dispatch (.new "ops" "alerts" "mail" 0)
      [fatalAt 0, fatalAt 1, fatalAt 6]) =
        [0, Duration.fromSecs (6 * 3600)] ∧
    (trace EmailSink.dispatch (.new "ops" "alerts" "mail" 0)
      [fatalAt 0, fatalAt 1, fatalAt 6]).Pairwise
      fun first second => first.2.invocation.isSome = true →
        second.2.invocation.isSome = true → SamePair first.1.alert second.1.alert →
        first.1.dedupNow + dedupWindow ≤ second.1.dedupNow := by
  have chron : Chronological 0 [fatalAt 0, fatalAt 1, fatalAt 6] :=
    ⟨fun call _ => Nat.zero_le _, by decide⟩
  have hemitted : ∀ call ∈ [fatalAt 0, fatalAt 1, fatalAt 6], Emitted call.alert := by
    simp [fatalAt, fatalAlert_emitted]
  exact ⟨by decide +kernel, (email_spacing "ops" "alerts" "mail" 0 _ chron hemitted).2.1⟩

end Watchtower.Email
