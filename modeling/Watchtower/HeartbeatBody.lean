import Watchtower.BodyLines
import Watchtower.Heartbeat
import Watchtower.Logger

/-!
# What a heartbeat file says of itself

A heartbeat is three ended lines, so none begins another, and it tells when it was written
and what it counted. A reader that takes nothing but a whole heartbeat for one is never
misled by a write that is still going on or was given up.
-/

namespace Watchtower.Heartbeat

open Chrono Machine Text

section Body

/-- The lines of a heartbeat. -/
def Beat.lines (beat : Beat) : List (List Char) :=
  ["timestamp=".toList ++ beat.now.toRfc3339.toList,
    "uptime_secs=".toList ++ (toString beat.uptime).toList,
    "events_seen=".toList ++ (toString beat.events).toList]

theorem Beat.lines_length (beat : Beat) : beat.lines.length = 3 := rfl

theorem renderHeartbeatBody_toList (beat : Beat) :
    (renderHeartbeatBody beat.now.toRfc3339 beat.uptime beat.events).toList =
      terminated '\n' beat.lines := by
  simp [renderHeartbeatBody, Beat.lines, terminated]

theorem counter_oneLine (n : UInt64) : '\n' ∉ (toString n).toList :=
  (Ntfy.headerSafe_toString n.toNat).no_lf

theorem Beat.lines_clean (beat : Beat) : ∀ line ∈ beat.lines, '\n' ∉ line := by
  have htime : '\n' ∉ beat.now.toRfc3339.toList := Email.rfc3339_oneLine beat.now
  have hlabels : '\n' ∉ "timestamp=".toList ∧ '\n' ∉ "uptime_secs=".toList ∧
      '\n' ∉ "events_seen=".toList := by decide
  intro line mem
  simp only [Beat.lines, List.mem_cons, List.not_mem_nil, or_false] at mem
  rcases mem with rfl | rfl | rfl
  · exact List.not_mem_append hlabels.1 htime
  · exact List.not_mem_append hlabels.2.1 (counter_oneLine _)
  · exact List.not_mem_append hlabels.2.2 (counter_oneLine _)

theorem counter_inj {m n : UInt64} (same : (toString m).toList = (toString n).toList) :
    m = n :=
  UInt64.toNat_inj.mp (Logger.natText_inj (String.toList_injective same))

theorem Beat.lines_inj {b b' : Beat} (same : b.lines = b'.lines) : b = b' := by
  simp only [Beat.lines, List.cons.injEq, List.append_cancel_left_eq, and_true] at same
  obtain ⟨hnow, huptime, hevents⟩ := same
  have now := toRfc3339_inj (String.toList_injective hnow)
  have uptime := counter_inj huptime
  have events := counter_inj hevents
  cases b with
  | mk t m n =>
    subst now uptime events
    rfl

/-- No heartbeat begins another. -/
theorem body_begins_iff {b b' : Beat} : b.body <+: b'.body ↔ b = b' := by
  constructor
  · intro h
    have htext := toList_begins h
    rw [renderHeartbeatBody_toList, renderHeartbeatBody_toList,
      terminated_prefix_iff b.lines_clean b'.lines_clean] at htext
    exact Beat.lines_inj (htext.eq_of_length (b.lines_length.trans b'.lines_length.symm))
  · rintro rfl
    exact List.prefix_refl _

end Body

section Torn
variable {hasParent : Bool} {file : Option HeartbeatFile}

/-- The call whose heartbeat the action begins to write. -/
def opens : State × Action → Option Beat
  | (s, .opened _) => match s.progress with
    | .opening beat => some beat
    | _ => none
  | _ => none

def lastOpened (log : List (State × Action)) : Option Beat := (log.filterMap opens).getLast?

theorem lastOpened_of_opens {log : List (State × Action)} {entry : State × Action} {beat : Beat}
    (h : opens entry = some beat) : lastOpened (log ++ [entry]) = some beat := by
  simp [lastOpened, List.filterMap_append, h]

theorem lastOpened_of_other {log : List (State × Action)} {entry : State × Action}
    (h : opens entry = none) : lastOpened (log ++ [entry]) = lastOpened log := by
  simp [lastOpened, List.filterMap_append, h]

/-- What the file holds once the call of a beat has opened it. -/
structure Held (s : State) (beat : Beat) : Prop where
  begun : ∃ f, s.file = some f ∧ f.content <+: beat.body
  writing : ∀ f left, s.progress = .writing f left →
    s.file = some f ∧ left ≠ [] ∧ f.content ++ left = beat.body
  whole : s.progress = .returned true → ∃ f, s.file = some f ∧ f.content = beat.body

structure Kept (file : Option HeartbeatFile) (log : List (State × Action)) (s : State) :
    Prop where
  untouched : lastOpened log = none → s.file = file ∧ s.progress ≠ .returned true ∧
    ∀ f left, s.progress ≠ .writing f left
  held : ∀ beat, lastOpened log = some beat → Held s beat

theorem proceed_held (s : State) {beat : Beat} {f : HeartbeatFile} {left : List UInt8}
    (body : f.content ++ left = beat.body) : Held (s.proceed f left) beat where
  begun := ⟨f, rfl, left, body⟩
  writing g rest h := by
    by_cases hnil : left = []
    · simp [State.proceed, hnil] at h
    · simp only [State.proceed, if_neg hnil, Progress.writing.injEq] at h
      obtain ⟨rfl, rfl⟩ := h
      exact ⟨rfl, hnil, body⟩
  whole h := by
    by_cases hnil : left = []
    · rw [hnil, List.append_nil] at body
      exact ⟨f, rfl, body⟩
    · simp [State.proceed, hnil] at h

/-- Steps that leave the file alone and end in no write. -/
theorem Kept.still {log : List (State × Action)} {s s' : State} {a : Action}
    (kept : Kept file log s) (other : opens (s, a) = none) (same : s'.file = s.file)
    (notWhole : s'.progress ≠ .returned true) (still : ∀ f left, s'.progress ≠ .writing f left) :
    Kept file (log ++ [(s, a)]) s' := by
  constructor
  · intro h
    rw [lastOpened_of_other other] at h
    exact ⟨same.trans (kept.untouched h).1, notWhole, still⟩
  · intro beat h
    rw [lastOpened_of_other other] at h
    obtain ⟨f, hf, hbegun⟩ := (kept.held beat h).begun
    exact ⟨⟨f, same.trans hf, hbegun⟩, fun g left hw => absurd hw (still g left),
      fun hw => absurd hw notWhole⟩

theorem Kept.opened {log : List (State × Action)} {s : State} {beat : Beat}
    (opening : s.progress = .opening beat) (now : DateTime) :
    Kept file (log ++ [(s, .opened now)]) (s.proceed ⟨[], now⟩ beat.body) := by
  have hopens : opens (s, .opened now) = some beat := by simp only [opens, opening]
  constructor
  · intro h
    rw [lastOpened_of_opens hopens] at h
    cases h
  · intro past h
    rw [lastOpened_of_opens hopens, Option.some.injEq] at h
    rw [← h]
    exact proceed_held s (List.nil_append _)

theorem Kept.wrote {log : List (State × Action)} {s : State} (kept : Kept file log s)
    {f : HeartbeatFile} {left : List UInt8} (writing : s.progress = .writing f left) (n : Nat)
    (now : DateTime) : Kept file (log ++ [(s, .wrote n now)])
      (s.proceed (f.append (left.take n) now) (left.drop n)) := by
  constructor
  · intro h
    rw [lastOpened_of_other rfl] at h
    exact absurd writing ((kept.untouched h).2.2 f left)
  · intro beat h
    rw [lastOpened_of_other rfl] at h
    obtain ⟨_, _, hbody⟩ := (kept.held beat h).writing f left writing
    apply proceed_held s
    rw [HeartbeatFile.append, List.append_assoc, List.take_append_drop, hbody]

theorem kept_of_run {log : List (State × Action)} {s : State}
    (run : Run (Step hasParent) (start file) log s) : Kept file log s := by
  induction run with
  | start => exact ⟨fun _ => ⟨rfl, nofun, nofun⟩, nofun⟩
  | take run step ih =>
    cases step with
    | call beat h =>
      refine ih.still rfl rfl ?_ ?_
      · cases hasParent <;> exact nofun
      · cases hasParent <;> exact nofun
    | dirCreated beat h => exact ih.still rfl rfl nofun nofun
    | dirFailed beat h => exact ih.still rfl rfl nofun nofun
    | opened beat now h => exact Kept.opened h now
    | openFailed beat h => exact ih.still rfl rfl nofun nofun
    | wrote f left n now h some atMost => exact ih.wrote h n now
    | writeFailed f left h => exact ih.still rfl rfl nofun nofun

/-- Before a call opens the file, it is what an earlier process left. From then on it holds
a beginning of the heartbeat of the last call that did, and a whole heartbeat in front, of
whatever time and counts, is that one and all there is. -/
theorem torn_shows {log : List (State × Action)} {s : State}
    (run : Run (Step hasParent) (start file) log s) :
    (lastOpened log = none → s.file = file) ∧
      ∀ beat, lastOpened log = some beat → ∃ f, s.file = some f ∧ f.content <+: beat.body ∧
        (∀ b : Beat, b.body <+: f.content ↔ b = beat ∧ f.content = beat.body) ∧
        (s.progress = .returned true → f.content = beat.body) ∧
        ∀ g left, s.progress = .writing g left → ∀ b : Beat, ¬ b.body <+: f.content := by
  have hkept := kept_of_run run
  refine ⟨fun h => (hkept.untouched h).1, fun beat h => ?_⟩
  obtain ⟨⟨f, hf, hbegun⟩, hwriting, hwhole⟩ := hkept.held beat h
  have hreads : ∀ b : Beat, b.body <+: f.content ↔ b = beat ∧ f.content = beat.body := by
    intro b
    constructor
    · intro hb
      obtain rfl := body_begins_iff.mp (hb.trans hbegun)
      exact ⟨rfl, hbegun.eq_of_length_le hb.length_le⟩
    · rintro ⟨rfl, hcontent⟩
      rw [hcontent]
  refine ⟨f, hf, hbegun, hreads, fun hdone => ?_, fun g left hprogress b hb => ?_⟩
  · obtain ⟨g, hg, hcontent⟩ := hwhole hdone
    rw [hf, Option.some.injEq] at hg
    rw [hg, hcontent]
  · obtain ⟨hg, hleft, hbody⟩ := hwriting g left hprogress
    rw [hf, Option.some.injEq] at hg
    rw [← hg, ((hreads b).mp hb).2, List.append_right_eq_self] at hbody
    exact hleft hbody

/-- The first call writes through. The second opens the file and can write no more. -/
theorem second_beat_fails : ∃ (log : List (State × Action)) (s : State),
    Run (Step false) (start none) log s ∧ lastOpened log = some secondBeat ∧
      s.progress = .returned false := by
  have hfirst : Run (Step false) (start none) _ _ :=
    run_beaten .start (.inl rfl) firstBeat (Duration.seconds 60)
  have hcalled := hfirst.take (.call _ secondBeat (.inr ⟨true, rfl⟩))
  have hopened := hcalled.take (.opened _ secondBeat (Duration.seconds 120) rfl)
  have hfailed := hopened.take (.writeFailed _ _ _ (opened_progress _ _ _))
  exact ⟨_, _, hfailed, (lastOpened_of_other rfl).trans (lastOpened_of_opens rfl), rfl⟩

/-- What that call leaves holds no heartbeat of another. -/
theorem torn_shows_second_beat :
    ∃ (log : List (State × Action)) (s : State) (f : HeartbeatFile),
      Run (Step false) (start none) log s ∧ lastOpened log = some secondBeat ∧
      s.progress = .returned false ∧ s.file = some f ∧
      ∀ b : Beat, b.body <+: f.content ↔ b = secondBeat ∧ f.content = secondBeat.body := by
  obtain ⟨log, s, run, hlast, hreturned⟩ := second_beat_fails
  obtain ⟨f, hf, _, hreads, _⟩ := (torn_shows run).2 secondBeat hlast
  exact ⟨log, s, f, run, hlast, hreturned, hf, hreads⟩

end Torn

end Watchtower.Heartbeat
