import Watchtower.Foundation.Machine
import Watchtower.Foundation.Shuffle
import Watchtower.Transcript

/-!
# The transcript of a child process

`stream_to_file` runs twice for a child process, for its standard output and its standard
error, and both append to the transcript. A `tokio::fs::File` takes over what is written to
it and writes it in the background, one buffer at a time: a failure is told at the next
write, and the header may still be on its way when the streams begin.
-/

namespace Watchtower.AutoClaude

open Machine Shuffle

/-- The `label` of a stream. -/
inductive Label where
  | stdout
  | stderr
  deriving DecidableEq, Repr

/-- The length of `buf`. -/
def bufLength : Nat := 8192

inductive StreamEnd where
  | openFailed
  | eof
  | readFailed
  | writeFailed
  deriving DecidableEq

/-- Where `stream_to_file` is. -/
inductive StreamStage where
  | opening
  | reading
  | writing (chunk : List UInt8)
  | finished (why : StreamEnd)

/-- A call of `stream_to_file`: what it has read so far, what of this has been written, what
its file is writing, and what will never be written. -/
structure Stream where
  stage : StreamStage
  read : List UInt8
  written : List UInt8
  behind : List UInt8
  lost : List UInt8
  failed : Bool

def Stream.start : Stream := ⟨.opening, [], [], [], [], false⟩

/-- One step of a call or of its file, with the bytes that it appends. -/
inductive StreamMove : Stream → List UInt8 → Stream → Prop where
  | opened (s : Stream) (h : s.stage = .opening) : StreamMove s [] { s with stage := .reading }
  | openFailed (s : Stream) (h : s.stage = .opening) :
      StreamMove s [] { s with stage := .finished .openFailed }
  | read (s : Stream) (chunk : List UInt8) (h : s.stage = .reading) (some : chunk ≠ [])
      (fits : chunk.length ≤ bufLength) :
      StreamMove s [] { s with stage := .writing chunk, read := s.read ++ chunk }
  | eof (s : Stream) (h : s.stage = .reading) :
      StreamMove s [] { s with stage := .finished .eof }
  | readFailed (s : Stream) (h : s.stage = .reading) :
      StreamMove s [] { s with stage := .finished .readFailed }
  -- the file takes a chunk over once it has dealt with the one before
  | takenOver (s : Stream) (chunk : List UInt8) (h : s.stage = .writing chunk)
      (idle : s.behind = []) (fine : s.failed = false) :
      StreamMove s [] { s with stage := .reading, behind := chunk }
  | writeFailed (s : Stream) (chunk : List UInt8) (h : s.stage = .writing chunk)
      (idle : s.behind = []) :
      StreamMove s [] { s with stage := .finished .writeFailed, lost := s.lost ++ chunk }
  | appended (s : Stream) (n : Nat) (some : 0 < n) (atMost : n ≤ s.behind.length) :
      StreamMove s (s.behind.take n)
        { s with written := s.written ++ s.behind.take n, behind := s.behind.drop n }
  | appendFailed (s : Stream) (h : s.behind ≠ []) :
      StreamMove s [] { s with behind := [], lost := s.lost ++ s.behind, failed := true }

/-- What a call holds in its hands. -/
def StreamStage.pending : StreamStage → List UInt8
  | .writing chunk => chunk
  | .opening | .reading | .finished _ => []

/-- The transcript, the header that is being written to it, and the two streams. -/
structure IncidentLog where
  content : List UInt8
  headerDone : List UInt8
  headerLeft : List UInt8
  headerFailed : Bool
  streams : Label → Stream

/-- A file that is created for the header, before anything is written. -/
def IncidentLog.start (header : String) : IncidentLog where
  content := []
  headerDone := []
  headerLeft := header.toUTF8.data.toList
  headerFailed := false
  streams _ := .start

/-- Bytes written over a file from a position on. -/
def overwrite (content : List UInt8) (position : Nat) (bytes : List UInt8) : List UInt8 :=
  content.take position ++ bytes ++ content.drop (position + bytes.length)

inductive IncidentAction where
  | header
  | headerFails
  | stream (label : Label) (bytes : List UInt8)

/-- The header is written where its last piece ended, a stream at the end of the file. -/
inductive IncidentMove : IncidentLog → IncidentAction → IncidentLog → Prop where
  | header (s : IncidentLog) (n : Nat) (some : 0 < n) (atMost : n ≤ s.headerLeft.length) :
      IncidentMove s .header { s with
        content := overwrite s.content s.headerDone.length (s.headerLeft.take n)
        headerDone := s.headerDone ++ s.headerLeft.take n
        headerLeft := s.headerLeft.drop n }
  | headerFails (s : IncidentLog) (h : s.headerLeft ≠ []) :
      IncidentMove s .headerFails { s with headerLeft := [], headerFailed := true }
  | stream (s : IncidentLog) (label : Label) {bytes : List UInt8} {next : Stream}
      (move : StreamMove (s.streams label) bytes next) :
      IncidentMove s (.stream label bytes) { s with
        content := s.content ++ bytes
        streams := Function.update s.streams label next }

section Streams

/-- Everything that was read is accounted for, in its order. Nothing is lost but the rest of
a chunk whose write has failed and the chunk of the call that is told. -/
structure Stream.Accounted (s : Stream) : Prop where
  read : s.read = s.written ++ s.behind ++ s.lost ++ s.stage.pending
  behind_le : s.behind.length ≤ bufLength
  pending_le : s.stage.pending.length ≤ bufLength
  lost_or_behind : s.lost = [] ∨ s.behind = []
  lost_of_fine : s.failed = false → s.stage ≠ .finished .writeFailed → s.lost = []
  lost_le : s.stage ≠ .finished .writeFailed → s.lost.length ≤ bufLength
  lost_le_two : s.lost.length ≤ 2 * bufLength

theorem Stream.start_accounted : Stream.start.Accounted where
  read := rfl
  behind_le := Nat.zero_le _
  pending_le := Nat.zero_le _
  lost_or_behind := .inl rfl
  lost_of_fine _ _ := rfl
  lost_le _ := Nat.zero_le _
  lost_le_two := Nat.zero_le _

variable {s next : Stream} {bytes : List UInt8}

/-- A call that goes on with nothing in its hands. -/
theorem Stream.Accounted.proceed (acc : s.Accounted) {stage after : StreamStage}
    (h : s.stage = stage) (empty : stage.pending = []) (calm : stage ≠ .finished .writeFailed)
    (emptyAfter : after.pending = []) : Stream.Accounted { s with stage := after } where
  read := by rw [acc.read, h, empty, emptyAfter]
  behind_le := acc.behind_le
  pending_le := by
    rw [emptyAfter]
    exact Nat.zero_le _
  lost_or_behind := acc.lost_or_behind
  lost_of_fine fine _ := acc.lost_of_fine fine (h ▸ calm)
  lost_le _ := acc.lost_le (h ▸ calm)
  lost_le_two := acc.lost_le_two

theorem StreamMove.written_eq (move : StreamMove s bytes next) :
    next.written = s.written ++ bytes := by
  cases move with
  | appended => rfl
  | _ => exact (List.append_nil _).symm

theorem Stream.Accounted.step (acc : s.Accounted) (move : StreamMove s bytes next) :
    next.Accounted := by
  cases move with
  | opened h =>
    exact acc.proceed h rfl StreamStage.noConfusion rfl
  | openFailed h =>
    exact acc.proceed h rfl StreamStage.noConfusion rfl
  | eof h =>
    exact acc.proceed h rfl StreamStage.noConfusion rfl
  | readFailed h =>
    exact acc.proceed h rfl StreamStage.noConfusion rfl
  | read chunk h some fits =>
    have calm : s.stage ≠ .finished .writeFailed := by
      rw [h]
      exact StreamStage.noConfusion
    have hread := acc.read
    rw [h, StreamStage.pending, List.append_nil] at hread
    exact ⟨by rw [hread]; rfl, acc.behind_le, fits, acc.lost_or_behind,
      fun fine _ => acc.lost_of_fine fine calm, fun _ => acc.lost_le calm, acc.lost_le_two⟩
  | takenOver chunk h idle fine =>
    have calm : s.stage ≠ .finished .writeFailed := by
      rw [h]
      exact StreamStage.noConfusion
    have hlost := acc.lost_of_fine fine calm
    have hread := acc.read
    have hfits := acc.pending_le
    rw [h] at hread hfits
    rw [idle, hlost, List.append_nil, List.append_nil] at hread
    refine ⟨?_, hfits, Nat.zero_le _, .inl hlost, fun _ _ => hlost, fun _ => acc.lost_le calm,
      acc.lost_le_two⟩
    rw [hread, hlost]
    simp [StreamStage.pending]
  | writeFailed chunk h idle =>
    have calm : s.stage ≠ .finished .writeFailed := by
      rw [h]
      exact StreamStage.noConfusion
    have hread := acc.read
    have hfits := acc.pending_le
    have hlost := acc.lost_le calm
    rw [h, StreamStage.pending] at hread hfits
    refine ⟨?_, acc.behind_le, Nat.zero_le _, .inr idle, fun _ hnot => absurd rfl hnot,
      fun hnot => absurd rfl hnot, ?_⟩
    · rw [hread]
      simp [StreamStage.pending]
    · rw [List.length_append]
      omega
  | appended n some atMost =>
    refine ⟨?_, ?_, acc.pending_le, ?_, acc.lost_of_fine, acc.lost_le, acc.lost_le_two⟩
    · have hsplit : s.written ++ s.behind = s.written ++ s.behind.take n ++ s.behind.drop n := by
        rw [List.append_assoc, List.take_append_drop]
      exact acc.read.trans (by rw [hsplit])
    · rw [List.length_drop]
      exact Nat.le_trans (Nat.sub_le _ _) acc.behind_le
    · rcases acc.lost_or_behind with hlost | hbehind
      · exact .inl hlost
      · rw [hbehind, List.length_nil] at atMost
        omega
  | appendFailed h =>
    have hlost := acc.lost_or_behind.resolve_right h
    have hbehind := acc.behind_le
    refine ⟨?_, Nat.zero_le _, acc.pending_le, .inr rfl, fun hfine => (nomatch hfine), fun _ => ?_,
      ?_⟩
    · rw [acc.read, hlost]
      simp
    · rw [hlost]
      exact hbehind
    · rw [hlost]
      exact Nat.le_trans hbehind (Nat.le_mul_of_pos_left _ (by decide))

/-- What has been written of a stream: a beginning of what was read, all but two chunks, and
everything at the end of a stream whose writes went well. -/
structure Stream.Shown (s : Stream) : Prop where
  begins : s.written <+: s.read
  nearly : s.read.length ≤ s.written.length + 2 * bufLength
  whole : s.stage = .finished .eof → s.behind = [] → s.failed = false → s.written = s.read

theorem Stream.Accounted.shown (acc : s.Accounted) : s.Shown where
  begins := by
    rw [acc.read, List.append_assoc, List.append_assoc]
    exact List.prefix_append _ _
  nearly := by
    have hbehind := acc.behind_le
    have hpending := acc.pending_le
    have hlost := acc.lost_le_two
    rw [acc.read, List.length_append, List.length_append, List.length_append]
    rcases acc.lost_or_behind with hnone | hnone
    · rw [hnone, List.length_nil]
      omega
    · rw [hnone, List.length_nil]
      by_cases hfailed : s.stage = .finished .writeFailed
      · rw [hfailed, StreamStage.pending, List.length_nil]
        omega
      · have hone := acc.lost_le hfailed
        omega
  whole heof hbehind hfine := by
    have hlost := acc.lost_of_fine hfine (by rw [heof]; simp)
    rw [acc.read, hbehind, hlost, heof]
    simp [StreamStage.pending]

end Streams

section File

/-- Nothing is appended as long as the header is on its way. -/
def HeaderFirst (s : IncidentLog) : IncidentAction → Prop
  | .stream _ bytes => bytes ≠ [] → s.headerLeft = []
  | .header | .headerFails => True

/-- The file is the header, as far as it has come, and a merge of the streams behind what the
header has covered of it. -/
structure Overlaid (header : List UInt8) (s : IncidentLog) (body : List UInt8) (covered : Nat) :
    Prop where
  begins : s.headerDone ++ s.headerLeft <+: header
  whole : s.headerFailed = false → s.headerDone ++ s.headerLeft = header
  content : s.content = s.headerDone ++ body.drop covered
  merged : IsShuffle (fun label => (s.streams label).written) body
  covered_le : covered ≤ s.headerDone.length ∧ covered ≤ body.length

/-- The header has gone first, so that nothing is covered. -/
def InOrder (header : List UInt8) (s : IncidentLog) : Prop :=
  ∃ body, Overlaid header s body 0 ∧ (s.headerLeft ≠ [] → body = [])

/-- Behind a beginning, bytes are written over those that follow it. -/
theorem overwrite_append (front back bytes : List UInt8) :
    overwrite (front ++ back) front.length bytes = front ++ bytes ++ back.drop bytes.length := by
  rw [overwrite, List.take_left, List.drop_append, Nat.add_sub_cancel_left,
    List.drop_eq_nil_of_le (Nat.le_add_right _ _), List.nil_append]

theorem written_update {s : IncidentLog} {label : Label} {bytes : List UInt8} {next : Stream}
    (move : StreamMove (s.streams label) bytes next) :
    (fun other => (Function.update s.streams label next other).written) =
      Function.update (fun other => (s.streams other).written) label
        ((s.streams label).written ++ bytes) := by
  funext other
  by_cases same : other = label
  · subst same
    rw [Function.update_self, Function.update_self, move.written_eq]
  · rw [Function.update_of_ne same, Function.update_of_ne same]

section Overlay
variable {header : List UInt8} {s : IncidentLog} {body : List UInt8} {covered : Nat}

theorem start_overlaid (header : String) :
    Overlaid header.toUTF8.data.toList (.start header) [] 0 where
  begins := List.prefix_rfl
  whole _ := rfl
  content := rfl
  merged := isShuffle_nil
  covered_le := ⟨Nat.le_refl 0, Nat.le_refl 0⟩

/-- A piece of the header covers as many bytes of the streams as it has, if there are. -/
theorem Overlaid.headerMoves (overlaid : Overlaid header s body covered) {n : Nat}
    (atMost : n ≤ s.headerLeft.length) :
    Overlaid header { s with
      content := overwrite s.content s.headerDone.length (s.headerLeft.take n)
      headerDone := s.headerDone ++ s.headerLeft.take n
      headerLeft := s.headerLeft.drop n } body (min (covered + n) body.length) := by
  have hsplit : s.headerDone ++ s.headerLeft.take n ++ s.headerLeft.drop n =
      s.headerDone ++ s.headerLeft := by
    rw [List.append_assoc, List.take_append_drop]
  have hlength : (s.headerLeft.take n).length = n := List.length_take_of_le atMost
  have hdrop : body.drop (min (covered + n) body.length) = (body.drop covered).drop n := by
    rw [List.drop_drop]
    rcases Nat.le_total (covered + n) body.length with hle | hle
    · rw [Nat.min_eq_left hle]
    · rw [Nat.min_eq_right hle, List.drop_length, List.drop_eq_nil_of_le hle]
  obtain ⟨hcovered, _⟩ := overlaid.covered_le
  refine ⟨hsplit ▸ overlaid.begins, fun fine => hsplit.trans (overlaid.whole fine), ?_,
    overlaid.merged, ?_, Nat.min_le_right _ _⟩
  · dsimp only
    rw [overlaid.content, overwrite_append, hlength, hdrop]
  · dsimp only
    rw [List.length_append, hlength]
    omega

theorem Overlaid.headerFails (overlaid : Overlaid header s body covered) :
    Overlaid header { s with headerLeft := [], headerFailed := true } body covered := by
  refine ⟨?_, fun fine => (nomatch fine), overlaid.content, overlaid.merged, overlaid.covered_le⟩
  rw [List.append_nil]
  exact (List.prefix_append _ _).trans overlaid.begins

/-- What a stream appends comes behind everything, covered or not. -/
theorem Overlaid.stream (overlaid : Overlaid header s body covered) (label : Label)
    {bytes : List UInt8} {next : Stream} (move : StreamMove (s.streams label) bytes next) :
    Overlaid header { s with
      content := s.content ++ bytes
      streams := Function.update s.streams label next } (body ++ bytes) covered := by
  obtain ⟨hdone, hbody⟩ := overlaid.covered_le
  refine ⟨overlaid.begins, overlaid.whole, ?_, ?_, hdone, ?_⟩
  · dsimp only
    rw [overlaid.content, List.append_assoc, List.drop_append_of_le_length hbody]
  · rw [written_update move]
    exact overlaid.merged.append label bytes
  · rw [List.length_append]
    exact Nat.le_trans hbody (Nat.le_add_right _ _)

end Overlay

theorem overlaid_step {header : List UInt8} (s : IncidentLog) (a : IncidentAction)
    (s' : IncidentLog) (move : IncidentMove s a s')
    (inv : ∃ body covered, Overlaid header s body covered) :
    ∃ body covered, Overlaid header s' body covered := by
  obtain ⟨body, covered, overlaid⟩ := inv
  cases move with
  | header n some atMost => exact ⟨body, _, overlaid.headerMoves atMost⟩
  | headerFails h => exact ⟨body, covered, overlaid.headerFails⟩
  | stream label move => exact ⟨_, covered, overlaid.stream label move⟩

theorem inOrder_step {header : List UInt8} (s : IncidentLog) (a : IncidentAction)
    (s' : IncidentLog) (move : IncidentMove s a s') (first : HeaderFirst s a)
    (inv : InOrder header s) : InOrder header s' := by
  obtain ⟨body, overlaid, hempty⟩ := inv
  cases move with
  | header n some atMost =>
    have hbody : body = [] := hempty fun hnone => by
      rw [hnone, List.length_nil] at atMost
      omega
    subst hbody
    have hnext := overlaid.headerMoves atMost
    rw [List.length_nil, Nat.min_zero] at hnext
    exact ⟨[], hnext, fun _ => rfl⟩
  | headerFails h => exact ⟨body, overlaid.headerFails, fun hnot => absurd rfl hnot⟩
  | @stream label bytes next move =>
    refine ⟨_, overlaid.stream label move, fun hleft => ?_⟩
    have hbytes : bytes = [] := by
      by_contra hsome
      exact hleft (first hsome)
    rw [hbytes, List.append_nil]
    exact hempty hleft

theorem streams_step (s : IncidentLog) (a : IncidentAction) (s' : IncidentLog)
    (move : IncidentMove s a s') (inv : ∀ label, (s.streams label).Accounted) :
    ∀ label, (s'.streams label).Accounted := by
  cases move with
  | header => exact inv
  | headerFails => exact inv
  | @stream label bytes next move =>
    intro other
    dsimp only
    by_cases same : other = label
    · subst same
      rw [Function.update_self]
      exact (inv other).step move
    · rw [Function.update_of_ne same]
      exact inv other

end File

/-- What a reader finds in a transcript: as much of the header as has come, and behind it
what the streams have written, each in its order, but for some bytes that a header which came
late has covered. -/
structure Holds (header : List UInt8) (s : IncidentLog) (covered : Nat) : Prop where
  merged : ∃ body, s.content = s.headerDone ++ body.drop covered ∧
    IsShuffle (fun label => (s.streams label).written) body
  covered_le : covered ≤ s.headerDone.length
  header_begins : s.headerDone <+: header
  header_whole : s.headerLeft = [] → s.headerFailed = false → s.headerDone = header

theorem Overlaid.holds {header : List UInt8} {s : IncidentLog} {body : List UInt8}
    {covered : Nat} (overlaid : Overlaid header s body covered) : Holds header s covered := by
  refine ⟨⟨body, overlaid.content, overlaid.merged⟩, overlaid.covered_le.1,
    (List.prefix_append _ _).trans overlaid.begins, fun hleft hfine => ?_⟩
  rw [← overlaid.whole hfine, hleft, List.append_nil]

/-- A stream that is the only one follows the header. -/
theorem Holds.alone {header : List UInt8} {s : IncidentLog} (holds : Holds header s 0)
    {label : Label} (alone : ∀ other, other ≠ label → (s.streams other).written = []) :
    s.content = s.headerDone ++ (s.streams label).written := by
  obtain ⟨body, hcontent, hshuffle⟩ := holds.merged
  rw [hcontent, List.drop_zero, hshuffle.eq_of_alone alone]

variable {tables : TextTables} {sink : AutoClaudeSink}

theorem header_of_dispatch {available : Nat} {call : Dispatch} {path header : String}
    (created : (sink.dispatch tables available call).2.header = some (path, header)) :
    path = sink.logPath (incidentSlug call.alert) ∧ ∃ project,
      sink.preflight tables call.alert = .ok project ∧
      header = incidentHeader call.alert project call.started := by
  cases hpreflight : sink.preflight tables call.alert with
  | error reason =>
    rw [AutoClaudeSink.dispatch, hpreflight] at created
    cases created
  | ok project =>
    rw [sink.dispatch_of_preflight tables hpreflight] at created
    cases available with
    | zero => cases created
    | succ left =>
      have spawned := sink.spawnClaude_cases tables left call project
      generalize sink.spawnClaude tables (left + 1) call project = done at spawned created
      cases spawned with
      | mkdirFailed => cases created
      | openFailed => cases created
      | handedOver =>
        obtain ⟨rfl, rfl⟩ := Prod.mk.inj (Option.some.inj created)
        exact ⟨rfl, project, rfl, rfl⟩

/-- At every moment of every interleaving of the two streams, their files and the header, the
transcript of an alert is the header, as far as it has come, and a merge of what the streams
have written, which is what they have read but for two chunks. A header that is late covers
no more of the merge than it has bytes itself, and one that goes first nothing. -/
theorem transcript_merges (tables : TextTables) (sink : AutoClaudeSink) (available : Nat)
    (call : Dispatch) (path header : String)
    (created : (sink.dispatch tables available call).2.header = some (path, header))
    (log : List (IncidentLog × IncidentAction)) (s : IncidentLog)
    (run : Run IncidentMove (.start header) log s) :
    (path = sink.logPath (incidentSlug call.alert) ∧ ∃ project,
      sink.preflight tables call.alert = .ok project ∧
      header = incidentHeader call.alert project call.started) ∧
    (∀ label, (s.streams label).Shown) ∧
    ∃ covered, Holds header.toUTF8.data.toList s covered ∧
      ((∀ entry ∈ log, HeaderFirst entry.1 entry.2) → covered = 0) := by
  have hstreams : ∀ label, ((IncidentLog.start header).streams label).Accounted :=
    fun _ => Stream.start_accounted
  have haccounted := run.invariant hstreams
    (fun s a s' move (_ : True) inv => streams_step s a s' move inv) (fun _ _ => trivial)
  refine ⟨header_of_dispatch created, fun label => (haccounted s (.inl rfl) label).shown, ?_⟩
  have hstart := start_overlaid header
  by_cases first : ∀ entry ∈ log, HeaderFirst entry.1 entry.2
  · obtain ⟨body, overlaid, _⟩ :=
      run.invariant ⟨[], hstart, fun _ => rfl⟩ inOrder_step first s (.inl rfl)
    exact ⟨0, overlaid.holds, fun _ => rfl⟩
  · obtain ⟨body, covered, overlaid⟩ := run.invariant ⟨[], 0, hstart⟩
      (fun s a s' move (_ : True) inv => overlaid_step s a s' move inv) (fun _ _ => trivial) s
      (.inl rfl)
    exact ⟨covered, overlaid.holds, fun h => absurd h first⟩

def fixedText : List UInt8 := "fixed".toUTF8.data.toList

/-- The header is written, and the child writes one word to its standard output. -/
theorem run_one_word (header : String) (some : 0 < header.toUTF8.data.toList.length) : ∃ log s,
    Run IncidentMove (.start header) log s ∧ (∀ entry ∈ log, HeaderFirst entry.1 entry.2) ∧
      s.headerLeft = [] ∧ s.headerFailed = false ∧ (s.streams .stderr).written = [] ∧
      (s.streams .stdout).written = fixedText := by
  have hrun : Run IncidentMove (.start header) [] _ := .start
  have hheader := hrun.take (.header _ _ some (Nat.le_refl _))
  have hopened := hheader.take (.stream _ .stdout (.opened _ rfl))
  have hread := hopened.take (.stream _ .stdout (.read _ fixedText rfl (by decide) (by decide)))
  have htaken := hread.take (.stream _ .stdout (.takenOver _ fixedText rfl rfl rfl))
  have hwritten := htaken.take (.stream _ .stdout (.appended _ 5 (by decide) (Nat.le_refl 5)))
  exact ⟨_, _, hwritten, by simp [HeaderFirst, IncidentLog.start], List.drop_length, rfl, rfl, rfl⟩

theorem transcript_merges_one_word : ∃ log s,
    Run IncidentMove (.start (incidentHeader registerFatal "/srv/sacredvote" 0)) log s ∧
      s.content =
        (incidentHeader registerFatal "/srv/sacredvote" 0).toUTF8.data.toList ++ fixedText := by
  obtain ⟨log, s, run, first, hleft, hfine, hstderr, hstdout⟩ :=
    run_one_word (incidentHeader registerFatal "/srv/sacredvote" 0) (by decide +kernel)
  have merges := transcript_merges asciiTables registerSink 1
    ⟨registerFatal, ⟨.ok (), .ok (), .ok ()⟩, 0⟩ _ _ rfl log s run
  obtain ⟨covered, holds, hnone⟩ := merges.2.2
  obtain rfl := hnone first
  refine ⟨log, s, run, ?_⟩
  have alone : ∀ other, other ≠ Label.stdout → (s.streams other).written = [] := by
    intro other differs
    cases other with
    | stdout => exact absurd rfl differs
    | stderr => exact hstderr
  rw [holds.alone alone, hstdout, holds.header_whole hleft hfine]

end Watchtower.AutoClaude
