import Watchtower.Chrono
import Watchtower.Foundation.Machine

/-!
# The heartbeat file

`self_monitor.rs`: the configuration, the body of a heartbeat, and `write_heartbeat` as
the steps it takes on the file. `tokio::fs::write` opens the file, which empties it, and
writes until nothing is left. A reader may look at the file between any two steps.
-/

namespace Watchtower.Heartbeat

open Chrono Machine

def defaultHeartbeatPath : String := "/var/lib/plausiden-watchtower/heartbeat"

def defaultIntervalSecs : Nat := 60

def minIntervalSecs : Nat := 10

def maxIntervalSecs : Nat := 600

def renderHeartbeatBody (nowIso : String) (uptimeSecs eventsSeen : UInt64) : String :=
  "timestamp=" ++ nowIso ++ "\nuptime_secs=" ++ toString uptimeSecs ++ "\nevents_seen=" ++
    toString eventsSeen ++ "\n"

/-- What one tick reads before it writes. -/
structure Beat where
  now : DateTime
  uptime : UInt64
  events : UInt64

def Beat.body (beat : Beat) : List UInt8 :=
  (renderHeartbeatBody beat.now.toRfc3339 beat.uptime beat.events).toUTF8.data.toList

theorem Beat.body_ne_nil (beat : Beat) : beat.body ≠ [] := by
  have htext : renderHeartbeatBody beat.now.toRfc3339 beat.uptime beat.events ≠ "" := by
    intro h
    unfold renderHeartbeatBody at h
    exact absurd (String.append_eq_empty_iff.mp h).2 (by decide)
  intro h
  apply htext
  rw [← String.utf8ByteSize_eq_zero_iff]
  exact congrArg List.length h

/-- What a reader sees of the file. -/
structure HeartbeatFile where
  content : List UInt8
  mtime : DateTime
  deriving DecidableEq, Repr

def HeartbeatFile.append (file : HeartbeatFile) (bytes : List UInt8) (now : DateTime) :
    HeartbeatFile :=
  ⟨file.content ++ bytes, now⟩

/-- Where the task is in `write_heartbeat`. -/
inductive Progress where
  | waiting
  | creatingDir (beat : Beat)
  | opening (beat : Beat)
  | writing (file : HeartbeatFile) (left : List UInt8)
  | returned (ok : Bool)

/-- The file, the call, and what has been called so far: the bodies, whether one of the
calls returned `Ok`, and the file as it was when the last call began. -/
structure State where
  file : Option HeartbeatFile
  progress : Progress
  called : List Beat
  succeeded : Bool
  before : Option HeartbeatFile

/-- The task has not ticked yet; the file may be left from an earlier process. -/
def start (file : Option HeartbeatFile) : State := ⟨file, .waiting, [], false, file⟩

/-- What the task does next, with what becomes of it. -/
inductive Action where
  | call (beat : Beat)
  | dirCreated
  | dirFailed
  | opened (now : DateTime)
  | openFailed
  | wrote (n : Nat) (now : DateTime)
  | writeFailed

namespace State

def begin (s : State) (beat : Beat) (hasParent : Bool) : State :=
  { s with
    progress := if hasParent then .creatingDir beat else .opening beat
    called := s.called ++ [beat]
    before := s.file }

def fail (s : State) : State := { s with progress := .returned false }

/-- `write_all` returns once nothing is left. -/
def proceed (s : State) (file : HeartbeatFile) (left : List UInt8) : State :=
  { s with
    file := some file
    progress := if left = [] then .returned true else .writing file left
    succeeded := s.succeeded || left = [] }

end State

/-- One step of the task. A write takes at least one byte, and may take fewer than there
are left. -/
inductive Step (hasParent : Bool) : State → Action → State → Prop where
  | call (s : State) (beat : Beat) (h : s.progress = .waiting ∨ ∃ ok, s.progress = .returned ok) :
      Step hasParent s (.call beat) (s.begin beat hasParent)
  | dirCreated (s : State) (beat : Beat) (h : s.progress = .creatingDir beat) :
      Step hasParent s .dirCreated { s with progress := .opening beat }
  | dirFailed (s : State) (beat : Beat) (h : s.progress = .creatingDir beat) :
      Step hasParent s .dirFailed s.fail
  | opened (s : State) (beat : Beat) (now : DateTime) (h : s.progress = .opening beat) :
      Step hasParent s (.opened now) (s.proceed ⟨[], now⟩ beat.body)
  | openFailed (s : State) (beat : Beat) (h : s.progress = .opening beat) :
      Step hasParent s .openFailed s.fail
  | wrote (s : State) (file : HeartbeatFile) (left : List UInt8) (n : Nat) (now : DateTime)
      (h : s.progress = .writing file left) (some : 0 < n) (atMost : n ≤ left.length) :
      Step hasParent s (.wrote n now) (s.proceed (file.append (left.take n) now) (left.drop n))
  | writeFailed (s : State) (file : HeartbeatFile) (left : List UInt8)
      (h : s.progress = .writing file left) : Step hasParent s .writeFailed s.fail

/-- A reader finds the whole body of a call once one has returned `Ok`, and a call that
returned `Err` has left the file alone. -/
structure Honest (s : State) : Prop where
  whole : s.succeeded = true →
    ∃ file beat, s.file = some file ∧ beat ∈ s.called ∧ file.content = beat.body
  untouched : s.progress = .returned false → s.file = s.before

/-- Nothing has come through before the file is opened, and the write goes through. -/
def Harmless (s : State) : Action → Prop
  | .opened _ => s.succeeded = false
  | .writeFailed => False
  | _ => True

/-- The clock has moved on since the file was last changed by another call. -/
def StampMoves (s : State) : Action → Prop
  | .opened now | .wrote _ now => ∀ old ∈ s.before, old.mtime ≠ now
  | _ => True

variable {hasParent : Bool}

section Harmless

/-- What the progress of a call says of the file, in a run of harmless actions. -/
def Agrees (s : State) : Progress → Prop
  | .waiting => True
  | .creatingDir beat | .opening beat => beat ∈ s.called ∧ s.file = s.before
  | .writing file left => s.succeeded = false ∧ s.file = some file ∧
      ∃ beat ∈ s.called, file.content ++ left = beat.body
  | .returned ok => ok = false → s.file = s.before

structure Invariant (s : State) : Prop where
  whole : s.succeeded = true →
    ∃ file beat, s.file = some file ∧ beat ∈ s.called ∧ file.content = beat.body
  agrees : Agrees s s.progress

theorem Invariant.honest {s : State} (inv : Invariant s) : Honest s where
  whole := inv.whole
  untouched h := by
    have hagrees := inv.agrees
    rw [h] at hagrees
    exact hagrees rfl

theorem start_invariant (file : Option HeartbeatFile) : Invariant (start file) where
  whole h := nomatch h
  agrees := trivial

theorem Invariant.begin {s : State} (inv : Invariant s) (beat : Beat) :
    Invariant (s.begin beat hasParent) where
  whole h := by
    obtain ⟨file, past, hfile, mem, hcontent⟩ := inv.whole h
    exact ⟨file, past, hfile, List.mem_append_left _ mem, hcontent⟩
  agrees := by
    have hmem : beat ∈ s.called ++ [beat] := List.mem_append_right _ (List.mem_singleton_self _)
    cases hasParent with
    | false => exact ⟨hmem, rfl⟩
    | true => exact ⟨hmem, rfl⟩

theorem Invariant.fail {s : State} (inv : Invariant s) (same : s.file = s.before) :
    Invariant s.fail where
  whole := inv.whole
  agrees _ := same

/-- The part of the body that is in the file and the part that is left make up the body,
also where the second one is empty and the call returns. -/
theorem proceed_invariant {s : State} (fresh : s.succeeded = false) {beat : Beat}
    (mem : beat ∈ s.called) {file : HeartbeatFile} {left : List UInt8}
    (body : file.content ++ left = beat.body) : Invariant (s.proceed file left) := by
  cases left with
  | nil =>
    rw [List.append_nil] at body
    exact ⟨fun _ => ⟨file, beat, rfl, mem, body⟩, fun h => nomatch h⟩
  | cons byte rest =>
    have hstill : (s.proceed file (byte :: rest)).succeeded = false := by
      simp [State.proceed, fresh]
    refine ⟨fun h => ?_, hstill, rfl, beat, mem, body⟩
    rw [hstill] at h
    cases h

theorem invariant_step (s : State) (a : Action) (s' : State) (step : Step hasParent s a s')
    (harmless : Harmless s a) (inv : Invariant s) : Invariant s' := by
  have hagrees := inv.agrees
  cases step with
  | call beat h => exact inv.begin beat
  | dirCreated beat h =>
    rw [h] at hagrees
    exact ⟨inv.whole, hagrees⟩
  | dirFailed beat h =>
    rw [h] at hagrees
    exact inv.fail hagrees.2
  | opened beat now h =>
    rw [h] at hagrees
    exact proceed_invariant harmless hagrees.1 (List.nil_append _)
  | openFailed beat h =>
    rw [h] at hagrees
    exact inv.fail hagrees.2
  | wrote file left n now h some atMost =>
    rw [h] at hagrees
    obtain ⟨hfresh, _, beat, mem, hbody⟩ := hagrees
    refine proceed_invariant hfresh mem ?_
    rw [HeartbeatFile.append, List.append_assoc, List.take_append_drop, hbody]
  | writeFailed file left h => exact absurd harmless not_false

end Harmless

section Stamps

/-- An open file has been changed since the call began. -/
def Touched (s : State) : Prop :=
  match s.progress with
  | .waiting | .returned _ => True
  | .creatingDir _ | .opening _ => s.file = s.before
  | .writing file _ => s.file = some file ∧ ∀ old ∈ s.before, old.mtime ≠ file.mtime

theorem proceed_touched {s : State} {file : HeartbeatFile} {left : List UInt8}
    (moved : ∀ old ∈ s.before, old.mtime ≠ file.mtime) : Touched (s.proceed file left) := by
  cases left with
  | nil => exact trivial
  | cons byte rest => exact ⟨rfl, moved⟩

theorem touched_step (s : State) (a : Action) (s' : State) (step : Step hasParent s a s')
    (moves : StampMoves s a) (touched : Touched s) : Touched s' := by
  rw [Touched] at touched
  cases step with
  | call beat h =>
    cases hasParent with
    | false => exact rfl
    | true => exact rfl
  | dirCreated beat h =>
    rw [h] at touched
    exact touched
  | dirFailed beat h => exact trivial
  | opened beat now h => exact proceed_touched moves
  | openFailed beat h => exact trivial
  | wrote file left n now h some atMost => exact proceed_touched moves
  | writeFailed file left h => exact trivial

/-- A harmful action leads to a state that is not honest. -/
theorem harmless_of_honest {s s' : State} {a : Action} (step : Step hasParent s a s')
    (touched : Touched s) (honest : Honest s') : Harmless s a := by
  cases step with
  | opened beat now h =>
    rw [Harmless, ← Bool.not_eq_true]
    intro hdone
    have hsucceeded : (s.proceed ⟨[], now⟩ beat.body).succeeded = true := by
      simp [State.proceed, hdone]
    obtain ⟨file, whole, hfile, _, hcontent⟩ := honest.whole hsucceeded
    obtain rfl := Option.some.inj hfile
    exact whole.body_ne_nil hcontent.symm
  | writeFailed file left h =>
    rw [Touched, h] at touched
    have hsame : s.file = s.before := honest.untouched rfl
    exact touched.2 file (by rw [← hsame, touched.1]; rfl) rfl
  | call beat h => trivial
  | dirCreated beat h => trivial
  | dirFailed beat h => trivial
  | openFailed beat h => trivial
  | wrote file left n now h some atMost => trivial

end Stamps

section Runs
variable {file : Option HeartbeatFile} {log : List (State × Action)} {s : State}

/-- In a run of harmless actions every state is honest. In a run whose stamps move no other
run is so: the first harmful action shows. -/
theorem honest_throughout_iff_harmless (run : Run (Step hasParent) (start file) log s) :
    ((∀ entry ∈ log, Harmless entry.1 entry.2) → ∀ t, Visits log s t → Honest t) ∧
      ((∀ entry ∈ log, StampMoves entry.1 entry.2) → (∀ t, Visits log s t → Honest t) →
        ∀ entry ∈ log, Harmless entry.1 entry.2) := by
  constructor
  · intro harmless t visited
    exact (run.invariant (start_invariant file) invariant_step harmless t visited).honest
  · rintro moves honest ⟨t, a⟩ mem
    have hstart : Touched (start file) := trivial
    have htouched := run.invariant hstart touched_step moves
    obtain ⟨t', step, visited⟩ := run.step_of_mem mem
    exact harmless_of_honest step (htouched t (.inr ⟨a, mem⟩)) (honest t' visited)

/-- A call without a directory to create that writes everything at once. -/
def beatLog (s : State) (beat : Beat) (now : DateTime) : List (State × Action) :=
  [(s, .call beat), (s.begin beat false, .opened now),
    ((s.begin beat false).proceed ⟨[], now⟩ beat.body, .wrote beat.body.length now)]

def State.beaten (s : State) (beat : Beat) (now : DateTime) : State :=
  ((s.begin beat false).proceed ⟨[], now⟩ beat.body).proceed ⟨beat.body, now⟩ []

theorem opened_progress (s : State) (beat : Beat) (now : DateTime) :
    ((s.begin beat false).proceed ⟨[], now⟩ beat.body).progress =
      .writing ⟨[], now⟩ beat.body := by
  simp [State.proceed, beat.body_ne_nil]

theorem run_beaten (run : Run (Step false) (start file) log s)
    (h : s.progress = .waiting ∨ ∃ ok, s.progress = .returned ok) (beat : Beat)
    (now : DateTime) :
    Run (Step false) (start file) (log ++ beatLog s beat now) (s.beaten beat now) := by
  have hwrote : Step false ((s.begin beat false).proceed ⟨[], now⟩ beat.body)
      (.wrote beat.body.length now) _ :=
    .wrote _ _ beat.body beat.body.length now (opened_progress s beat now)
      (List.length_pos_iff.mpr beat.body_ne_nil) (Nat.le_refl _)
  rw [List.take_length, List.drop_length, HeartbeatFile.append, List.nil_append] at hwrote
  have hrun := ((run.take (.call s beat h)).take (.opened _ beat now rfl)).take hwrote
  simpa [beatLog, State.beaten] using hrun

end Runs

def firstBeat : Beat := ⟨Duration.seconds 60, 0, 0⟩

def secondBeat : Beat := ⟨Duration.seconds 120, 60, 5⟩

/-- An earlier process has died between opening the file and writing to it. -/
def emptied : HeartbeatFile := ⟨[], Duration.seconds 0⟩

theorem honest_throughout_first_beat :
    Honest ((start emptied).beaten firstBeat (Duration.seconds 60)) ∧
      Harmless (start emptied) (.call firstBeat) := by
  have hstart : Run (Step false) (start emptied) [] (start emptied) := .start
  obtain ⟨hhonest, hharmless⟩ := honest_throughout_iff_harmless
    (run_beaten hstart (.inl rfl) firstBeat (Duration.seconds 60))
  have honest := hhonest (by simp [beatLog, Harmless, start, State.begin])
  have moves : ∀ old ∈ some emptied, old.mtime ≠ Duration.seconds 60 := by decide
  refine ⟨honest _ (.inl rfl), hharmless ?_ honest (start emptied, .call firstBeat) ?_⟩
  · simpa [beatLog, StampMoves, State.begin, State.proceed, start] using moves
  · simp [beatLog]

/-- The second call empties the file, finds the disk full and returns `Err`. -/
theorem second_beat_empties_file :
    ¬ ∀ (hasParent : Bool) (file : Option HeartbeatFile) (log : List (State × Action))
      (s : State), Run (Step hasParent) (start file) log s → ∀ t, Visits log s t → Honest t := by
  intro all
  have hfirst : Run (Step false) (start none) _ _ :=
    run_beaten .start (.inl rfl) firstBeat (Duration.seconds 60)
  have hcalled := hfirst.take (.call _ secondBeat (.inr ⟨true, rfl⟩))
  have hopened := hcalled.take (.opened _ secondBeat (Duration.seconds 120) rfl)
  have hfailed := hopened.take (.writeFailed _ _ _ (opened_progress _ _ _))
  have honest := all _ _ _ _ hfailed _ (.inl rfl)
  have hstamp := congrArg (Option.map HeartbeatFile.mtime) (honest.untouched rfl)
  exact absurd hstamp (by decide)

end Watchtower.Heartbeat
