import Watchtower.BucketKeys
import Watchtower.TripleFormat

/-!
# Steps that are a fraction and nothing else

The form `step=<n/m> <event>`. The pattern wants a word before its fraction, so `n/m`
is that word and the fraction is looked for in the event text.
-/

namespace Watchtower.Parse

open Classify Regex Regex.Pattern Text

/-- White space with `digits/digits` right behind it stands somewhere in the text. -/
def HasFraction (u : UnicodeClasses) (text : List Char) : Prop :=
  ∃ before fraction after, IsFraction u fraction ∧ text = before ++ (fraction ++ after)

/-- A line of the form: the header, a fraction and the text of an event. -/
structure StepLine (u : UnicodeClasses) extends Header where
  index : String
  total : String
  event : String
  index_number : IsNumber u index.toList
  total_number : IsNumber u total.toList
  event_line : '\n' ∉ event.toList

variable {u : UnicodeClasses}

namespace StepLine
variable (s : StepLine u)

/-- `n/m` -/
def fraction : String := s.index ++ "/" ++ s.total

def line : String := s.text ++ s.fraction ++ (" " ++ s.event)

/-- The text behind the fraction, as the message keeps it. -/
def behind : String := trimEnd (" " ++ s.event)

/-- The event text has a fraction of its own. -/
def HasLaterFraction : Prop := HasFraction u s.behind.toList

theorem fraction_toList : s.fraction.toList = s.index.toList ++ '/' :: s.total.toList := by
  simp [fraction]

theorem fraction_isWord : IsWord s.fraction.toList := by
  rw [fraction_toList]
  refine ⟨by simp, fun c hc => ?_⟩
  rcases List.mem_append.mp hc with hc | hc
  · exact s.index_number.2 c hc
  · rcases List.mem_cons.mp hc with rfl | hc
    · decide
    · exact s.total_number.2 c hc

theorem fraction_endsInWord : EndsInWord s.fraction := s.total_number.isWord.endsInWord _

def message : String := s.fields ++ s.fraction ++ s.behind

/-- The event of the line. -/
def parsed : StructuredEvent := s.toHeader.event u s.line s.message

theorem parsed_chain : s.parsed.chain = some s.chain := rfl

theorem parsed_step : s.parsed.step = capturedField (fieldStep u) s.message := by
  rw [parsed, Header.event]

theorem parsed_message : s.parsed.message = s.message := rfl

theorem parseLine_line : parseLine u s.line = .structured s.parsed := by
  refine parseLine_header u s.toHeader s.fraction_endsInWord ?_
  rw [List.mem_append]
  rintro (hmem | hmem)
  · exact absurd (s.fraction_isWord.2 _ hmem) (by decide)
  · simp [s.event_line] at hmem

/-- What is left of the text behind the fraction begins with the blank. -/
theorem behind_head {c : Char} {more : List Char} (h : s.behind.toList = c :: more) : c = ' ' := by
  obtain ⟨dropped, hdropped⟩ := List.rdropWhile_prefix isWhitespace (" " ++ s.event).toList
  rw [behind, trimEnd, String.toList_ofList] at h
  rw [h, String.toList_append] at hdropped
  exact (List.cons.inj hdropped).1

end StepLine

/-! Where a fraction can stand. -/

theorem HasFraction.of_append_word {w text : List Char} (word : ∀ c ∈ w, isWhitespace c = false)
    (h : HasFraction u (w ++ text)) : HasFraction u text := by
  obtain ⟨before, fraction, after, hfraction, heq⟩ := h
  rcases List.append_eq_append_iff.mp heq with ⟨more, _, htext⟩ | ⟨more, hw, hmore⟩
  · exact ⟨more, fraction, after, hfraction, htext⟩
  · cases more with
    | nil => exact ⟨[], fraction, after, hfraction, hmore.symm⟩
    | cons a more =>
      obtain ⟨gap, index, total, hgap, _, _, rfl⟩ := hfraction
      obtain ⟨b, gap, rfl⟩ := List.exists_cons_of_ne_nil hgap.1
      obtain ⟨rfl, _⟩ := List.cons.inj hmore
      have hspace := hgap.2 b List.mem_cons_self
      rw [word b (hw ▸ List.mem_append_right before List.mem_cons_self)] at hspace
      cases hspace

theorem HasFraction.of_blank {c : Char} {text : List Char} (hspace : isWhitespace c = false)
    (hdigit : u.digit c = false) (h : HasFraction u (' ' :: c :: text)) :
    HasFraction u (c :: text) := by
  obtain ⟨before, fraction, after, hfraction, heq⟩ := h
  cases before with
  | cons a before => exact ⟨before, fraction, after, hfraction, (List.cons.inj heq).2⟩
  | nil =>
    obtain ⟨gap, index, total, hgap, hindex, _, rfl⟩ := hfraction
    rw [List.nil_append, List.append_assoc] at heq
    have hblank : gap = [' '] := by
      refine gap_eq_blank hgap ?_ heq.symm
      rintro a ⟨⟩
      exact hspace
    obtain ⟨d, index, rfl⟩ := List.exists_cons_of_ne_nil hindex.1
    subst hblank
    obtain ⟨rfl, _⟩ := List.cons.inj (List.cons.inj heq).2
    rw [hindex.2 c List.mem_cons_self] at hdigit
    cases hdigit

/-- The fields have no fraction, so one in the message stands behind them. -/
theorem StepLine.later_of_message (s : StepLine u)
    (h : HasFraction u s.message.toList) : s.HasLaterFraction := by
  have hmessage : s.message.toList =
      ("chain=".toList ++ s.chain.toList) ++ (' ' :: (("rid=".toList ++ s.rid.toList) ++
        (' ' :: (("step=".toList ++ s.fraction.toList) ++ s.behind.toList)))) := by
    rw [StepLine.message, String.toList_append, String.toList_append, s.fields_toList]
    simp
  have htoken : ∀ {w}, IsToken w → ∀ c ∈ w, isWhitespace c = false := fun token c hc =>
    not_whitespace_of_range (fieldChar_range (token.2 c hc))
  have hkey : ∀ w : List Char, (w.all fun c => !isWhitespace c) = true →
      ∀ c ∈ w, isWhitespace c = false := fun w h c hc => by
    simpa using List.all_eq_true.mp h c hc
  have hchain : ∀ c ∈ "chain=".toList ++ s.chain.toList, isWhitespace c = false :=
    List.forall_mem_append.mpr ⟨hkey _ (by decide), htoken s.chain_token⟩
  have hrid : ∀ c ∈ "rid=".toList ++ s.rid.toList, isWhitespace c = false :=
    List.forall_mem_append.mpr ⟨hkey _ (by decide), htoken s.rid_token⟩
  have hstep : ∀ c ∈ "step=".toList ++ s.fraction.toList, isWhitespace c = false :=
    List.forall_mem_append.mpr ⟨hkey _ (by decide), s.fraction_isWord.2⟩
  rw [hmessage] at h
  have h₁ := h.of_append_word hchain
  have h₂ := h₁.of_blank (by decide) (not_digit_of_ascii (by decide) (by decide))
  have h₃ := HasFraction.of_append_word hrid h₂
  have h₄ := h₃.of_blank (by decide) (not_digit_of_ascii (by decide) (by decide))
  exact HasFraction.of_append_word hstep h₄

theorem HasFraction.slash_mem {text : List Char} (h : HasFraction u text) : '/' ∈ text := by
  obtain ⟨before, fraction, after, ⟨gap, index, total, _, _, _, rfl⟩, rfl⟩ := h
  simp

/-! Where the pattern matches. -/

/-- Every text is a word and blocks, with white space left at the end. -/
theorem words_split (text : List Char) : ∃ word, ∃ blocks : List (List Char), ∃ gap,
    (∀ c ∈ word, isWhitespace c = false) ∧ (∀ block ∈ blocks, IsBlock block) ∧
    (∀ c ∈ gap, isWhitespace c) ∧ text = word ++ (blocks.flatten ++ gap) := by
  induction text with
  | nil => exact ⟨[], [], [], by simp, by simp, by simp, rfl⟩
  | cons c text ih =>
    obtain ⟨word, blocks, gap, hword, hblocks, hgap, rfl⟩ := ih
    cases hc : isWhitespace c with
    | false =>
      exact ⟨c :: word, blocks, gap, List.forall_mem_cons.mpr ⟨hc, hword⟩, hblocks, hgap, rfl⟩
    | true =>
      cases word with
      | cons a word =>
        -- the blank ends the first word, which becomes a block
        have hblock : IsBlock (c :: a :: word) :=
          ⟨[c], a :: word, ⟨by simp, by simpa using hc⟩, ⟨by simp, hword⟩, rfl⟩
        exact ⟨[], (c :: a :: word) :: blocks, gap, by simp,
          List.forall_mem_cons.mpr ⟨hblock, hblocks⟩, hgap, by simp⟩
      | nil =>
        cases blocks with
        | nil =>
          exact ⟨[], [], c :: gap, by simp, by simp, List.forall_mem_cons.mpr ⟨hc, hgap⟩, rfl⟩
        | cons block blocks =>
          obtain ⟨first, word, hfirst, hw, rfl⟩ := hblocks block List.mem_cons_self
          have hblock : IsBlock (c :: (first ++ word)) :=
            ⟨c :: first, word, ⟨by simp, List.forall_mem_cons.mpr ⟨hc, hfirst.2⟩⟩, hw, rfl⟩
          refine ⟨[], (c :: (first ++ word)) :: blocks, gap, by simp,
            List.forall_mem_cons.mpr ⟨hblock, fun b hb => ?_⟩, hgap, by simp⟩
          exact hblocks b (List.mem_cons_of_mem _ hb)

theorem exists_step {w text : List Char} (word : IsWord w) (h : HasFraction u text) :
    ∃ v more, IsStep u v ∧ w ++ text = v ++ more := by
  obtain ⟨before, fraction, after, ⟨gap, index, total, hgap, hindex, htotal, rfl⟩, rfl⟩ := h
  obtain ⟨first, blocks, left, hfirst, hblocks, hleft, rfl⟩ := words_split before
  refine ⟨(w ++ first) ++ (blocks.flatten ++ ((left ++ gap) ++ (index ++ '/' :: total))), after,
    ⟨w ++ first, (left ++ gap) ++ (index ++ '/' :: total), blocks, ⟨?_, ?_⟩, hblocks,
      ⟨left ++ gap, index, total, ⟨?_, ?_⟩, hindex, htotal, rfl⟩, rfl⟩, by simp⟩
  · exact fun hnil => word.1 (List.append_eq_nil_iff.mp hnil).1
  · exact List.forall_mem_append.mpr ⟨word.2, hfirst⟩
  · exact fun hnil => hgap.1 (List.append_eq_nil_iff.mp hnil).2
  · exact List.forall_mem_append.mpr ⟨hleft, hgap.2⟩

theorem IsStep.hasFraction {v : List Char} (step : IsStep u v) : HasFraction u v := by
  obtain ⟨first, fraction, blocks, _, _, hfraction, rfl⟩ := step
  exact ⟨first ++ blocks.flatten, fraction, [], hfraction, by simp⟩

/-- A step that is read from the text behind a word has the word and a blank in front. -/
theorem IsStep.begins_with {v w text more : List Char} (step : IsStep u v) (word : IsWord w)
    (htext : ∀ c ∈ text.head?, c = ' ') (heq : w ++ text = v ++ more) :
    ∃ rest, v = w ++ ' ' :: rest := by
  have hgap : ∃ c ∈ v, isWhitespace c = true := by
    obtain ⟨before, fraction, after, ⟨gap, index, total, hgap, _, _, rfl⟩, rfl⟩ := step.hasFraction
    obtain ⟨c, gap, rfl⟩ := List.exists_cons_of_ne_nil hgap.1
    exact ⟨c, by simp, hgap.2 c List.mem_cons_self⟩
  obtain ⟨c, hc, hspace⟩ := hgap
  rcases List.append_eq_append_iff.mp heq with ⟨rest, rfl, hrest⟩ | ⟨rest, rfl, _⟩
  · cases rest with
    | nil =>
      rw [List.append_nil] at hc
      rw [word.2 c hc] at hspace
      cases hspace
    | cons b rest =>
      obtain rfl := htext b (by simp [hrest])
      exact ⟨rest, rfl⟩
  · rw [word.2 c (List.mem_append_left rest hc)] at hspace
    cases hspace

namespace StepLine
variable (s : StepLine u)

theorem behind_blank : ∀ c ∈ s.behind.toList.head?, c = ' ' := by
  intro c hc
  obtain ⟨more, hmore⟩ := List.head?_eq_some_iff.mp hc
  exact s.behind_head hmore

theorem later_of_captured {step : String} (h : s.parsed.step = some step) : s.HasLaterFraction := by
  rw [parsed_step, capturedField, Option.map_eq_some_iff] at h
  obtain ⟨w, hw, _⟩ := h
  obtain ⟨d, hd, _⟩ := Option.bind_eq_some_iff.mp hw
  obtain ⟨x, y, hxy, hmem⟩ := mem_of_search hd
  obtain ⟨m, hkey, hgroup⟩ := mem_run_field hmem
  obtain ⟨v, hv, hahead, _⟩ := mem_run_group (recognises_step u) hgroup
  obtain ⟨before, fraction, after, hfraction, rfl⟩ := hv.hasFraction
  refine s.later_of_message ⟨x ++ "step=".toList ++ before, fraction, after ++ d.ahead,
    hfraction, ?_⟩
  rw [hxy, show y = "step=".toList ++ m.ahead from hkey.ahead, hahead]
  simp only [List.append_assoc]

theorem step_eq_none (h : ¬ s.HasLaterFraction) : s.parsed.step = none :=
  Option.eq_none_iff_forall_ne_some.mpr fun _ hstep => h (s.later_of_captured hstep)

/-- With a later fraction the step is read from the fraction of the line on. -/
theorem captured_of_later (h : s.HasLaterFraction) : ∃ rest,
    s.parsed.step = some (String.ofList (s.fraction.toList ++ ' ' :: rest)) := by
  obtain ⟨v, more, hstep, heq⟩ := exists_step s.fraction_isWord h
  have hahead : (s.fraction ++ s.behind).toList = v ++ more := by
    rw [String.toList_append, heq]
  obtain ⟨w, hw, prefers⟩ := (recognises_step u).prefers
    (c := ⟨"step=".toList.reverse ++ s.toHeader.beforeStep, (s.fraction ++ s.behind).toList, []⟩)
    hahead hstep
  have hcaptured := step_of_prefers u s.toHeader prefers
  obtain ⟨d, _, _, reads⟩ := prefers
  have hread : s.fraction.toList ++ s.behind.toList = w ++ d.ahead := by
    rw [← String.toList_append]
    exact reads.ahead
  obtain ⟨rest, rfl⟩ := hw.begins_with s.fraction_isWord s.behind_blank hread
  exact ⟨rest, by rw [parsed_step, message, String.append_assoc, hcaptured]⟩

end StepLine

/-- A step is found, and it begins with the fraction of the line. -/
def StepRecognised (s : StepLine u) : Prop :=
  ∃ e step, parseLine u s.line = .structured e ∧ e.step = some step ∧
    s.fraction.toList <+: step.toList

/-- The reject rule counts the two lines under different keys. -/
def KeptApart (s s' : StepLine u) : Prop :=
  ∃ e e' key key', parseLine u s.line = .structured e ∧ parseLine u s'.line = .structured e' ∧
    rejectClusterPerStep.matchesKey e = some key ∧
    rejectClusterPerStep.matchesKey e' = some key' ∧ key ≠ key'

theorem stepRecognised_iff (s : StepLine u) : StepRecognised s ↔ s.HasLaterFraction := by
  constructor
  · rintro ⟨e, step, parsed, found, _⟩
    obtain rfl := LogEvent.structured.inj (s.parseLine_line.symm.trans parsed)
    exact s.later_of_captured found
  · intro later
    obtain ⟨rest, hstep⟩ := s.captured_of_later later
    refine ⟨_, _, s.parseLine_line, hstep, ?_⟩
    rw [String.toList_ofList]
    exact List.prefix_append _ _

theorem StepLine.reject_hit (s : StepLine u) (reject : contains s.event "REJECT" = true) :
    (rejectClusterPerStep.matchesKey s.parsed).isSome := by
  have hfound : contains s.parsed.message "REJECT" = true := by
    rw [StepLine.parsed_message]
    simp only [contains, decide_eq_true_eq] at reject ⊢
    obtain ⟨before, after, hevent⟩ := reject
    have hsplit : " " ++ s.event = (" " ++ String.ofList before) ++ "REJECT" ++
        String.ofList after := by
      apply String.toList_injective
      rw [String.toList_append, ← hevent]
      simp
    have hend : EndsInWord "REJECT" := ⟨"REJEC".toList, 'T', by decide, by decide⟩
    refine ⟨(s.fields ++ s.fraction).toList ++ (" " ++ String.ofList before).toList,
      (trimEnd (String.ofList after)).toList, ?_⟩
    rw [StepLine.message, StepLine.behind, hsplit, trimEnd_append hend]
    simp only [String.toList_append, List.append_assoc]
  simp only [rejectClusterPerStep, hfound, if_true, Option.isSome_some]

/-- Steps that begin with different fractions differ. -/
theorem parsed_step_ne {s s' : StepLine u} (different : s.fraction ≠ s'.fraction)
    (later : s.HasLaterFraction) : s.parsed.step ≠ s'.parsed.step := by
  intro same
  obtain ⟨rest, hstep⟩ := s.captured_of_later later
  obtain ⟨rest', hstep'⟩ := s'.captured_of_later (s'.later_of_captured (same.symm.trans hstep))
  rw [hstep, hstep', Option.some.injEq] at same
  have hblank : ∀ s : StepLine u, ' ' ∉ s.fraction.toList := fun s hmem =>
    absurd (s.fraction_isWord.2 ' ' hmem) (by decide)
  have hlist := congrArg String.toList same
  rw [String.toList_ofList, String.toList_ofList] at hlist
  exact different (String.toList_injective
    (append_separator_inj (hblank s) (hblank s') hlist).1)

theorem parsed_key_iff {s s' : StepLine u} (reject : contains s.event "REJECT" = true)
    (reject' : contains s'.event "REJECT" = true) :
    rejectClusterPerStep.matchesKey s.parsed = rejectClusterPerStep.matchesKey s'.parsed ↔
      s.chain = s'.chain ∧ s.parsed.step = s'.parsed.step := by
  rw [rejectCluster_key_iff (fieldsFormed_of_structured u s.parseLine_line)
    (fieldsFormed_of_structured u s'.parseLine_line) (s.reject_hit reject)
    (s'.reject_hit reject'), s.parsed_chain, s'.parsed_chain]
  simp [SameWithDefault]

theorem keptApart_iff {s s' : StepLine u} (reject : contains s.event "REJECT" = true)
    (reject' : contains s'.event "REJECT" = true) :
    KeptApart s s' ↔ ¬ (s.chain = s'.chain ∧ s.parsed.step = s'.parsed.step) := by
  rw [← parsed_key_iff reject reject']
  constructor
  · rintro ⟨e, e', key, key', parsed, parsed', hkey, hkey', hne⟩ same
    obtain rfl := LogEvent.structured.inj (s.parseLine_line.symm.trans parsed)
    obtain rfl := LogEvent.structured.inj (s'.parseLine_line.symm.trans parsed')
    rw [hkey, hkey', Option.some.injEq] at same
    exact hne same
  · intro distinct
    obtain ⟨key, hkey⟩ := Option.isSome_iff_exists.mp (s.reject_hit reject)
    obtain ⟨key', hkey'⟩ := Option.isSome_iff_exists.mp (s'.reject_hit reject')
    refine ⟨_, _, key, key', s.parseLine_line, s'.parseLine_line, hkey, hkey', ?_⟩
    rintro rfl
    exact distinct (hkey.trans hkey'.symm)

/-- The step of a line is found exactly if its event text has a fraction too, and
rejected lines are told apart exactly if one of them has, or by their chains. -/
theorem step_form_iff (s s' : StepLine u) :
    (StepRecognised s ↔ s.HasLaterFraction) ∧
    (contains s.event "REJECT" = true → contains s'.event "REJECT" = true →
      s.fraction ≠ s'.fraction → (KeptApart s s' ↔
        s.chain ≠ s'.chain ∨ s.HasLaterFraction ∨ s'.HasLaterFraction)) := by
  refine ⟨stepRecognised_iff s, fun reject reject' different => ?_⟩
  rw [keptApart_iff reject reject']
  constructor
  · intro distinct
    by_contra hnone
    obtain ⟨hchain, hlater, hlater'⟩ : s.chain = s'.chain ∧ ¬ s.HasLaterFraction ∧
        ¬ s'.HasLaterFraction := by
      simpa [not_or] using hnone
    exact distinct ⟨hchain, (s.step_eq_none hlater).trans (s'.step_eq_none hlater').symm⟩
  · rintro distinct ⟨hchain, hstep⟩
    rcases distinct with hne | later | later
    · exact hne hchain
    · exact parsed_step_ne different later hstep
    · exact parsed_step_ne different.symm later hstep.symm

/-- `step=3/8 REJECT duplicate` -/
def thirdStep : StepLine .ascii where
  toHeader := registrationTriple.toHeader
  index := "3"
  total := "8"
  event := "REJECT duplicate"
  index_number := isNumber_of_all (by decide) (by decide)
  total_number := registrationTriple.total_number
  event_line := oneLine_of_all (by decide)

/-- `step=5/8 REJECT duplicate` -/
def fifthStep : StepLine .ascii where
  toHeader := registrationTriple.toHeader
  index := "5"
  total := "8"
  event := "REJECT duplicate"
  index_number := registrationTriple.index_number
  total_number := registrationTriple.total_number
  event_line := oneLine_of_all (by decide)

/-- `step=3/8 REJECT after 2/3` -/
def thirdStepRetried : StepLine .ascii where
  toHeader := registrationTriple.toHeader
  index := "3"
  total := "8"
  event := "REJECT after 2/3"
  index_number := isNumber_of_all (by decide) (by decide)
  total_number := registrationTriple.total_number
  event_line := oneLine_of_all (by decide)

/-- The fraction of the third step's event text keeps the two lines apart. -/
theorem step_form_iff_retried :
    StepRecognised thirdStepRetried ∧ KeptApart thirdStepRetried fifthStep := by
  have form := step_form_iff thirdStepRetried fifthStep
  have later : thirdStepRetried.HasLaterFraction :=
    ⟨" REJECT after".toList, " 2/3".toList, [], ⟨[' '], ['2'], ['3'],
      ⟨by decide, List.all_eq_true.mp (by decide)⟩,
      (isNumber_of_all (by decide) (by decide)).1, (isNumber_of_all (by decide) (by decide)).1,
      by decide⟩, by decide⟩
  exact ⟨form.1.mpr later, (form.2 (by decide) (by decide) (by decide)).mpr (Or.inr (Or.inl later))⟩

/-- Without it no step is found and the third and the fifth step share a bucket. -/
theorem step_form_merges_steps :
    (¬ ∀ (u : UnicodeClasses) (s : StepLine u), StepRecognised s) ∧
    ¬ ∀ (u : UnicodeClasses) (s s' : StepLine u), contains s.event "REJECT" = true →
      contains s'.event "REJECT" = true → s.fraction ≠ s'.fraction → KeptApart s s' := by
  have hthird : thirdStep.parsed.step = none :=
    thirdStep.step_eq_none fun later => absurd later.slash_mem (by decide)
  have hfifth : fifthStep.parsed.step = none :=
    fifthStep.step_eq_none fun later => absurd later.slash_mem (by decide)
  constructor
  · intro all
    obtain ⟨e, step, parsed, found, _⟩ := all .ascii thirdStep
    obtain rfl := LogEvent.structured.inj (thirdStep.parseLine_line.symm.trans parsed)
    rw [hthird] at found
    cases found
  · intro all
    have apart := all .ascii thirdStep fifthStep (by decide) (by decide) (by decide)
    exact (keptApart_iff (by decide) (by decide)).mp apart ⟨rfl, hthird.trans hfifth.symm⟩

end Watchtower.Parse
