import Watchtower.CivilTime
import Watchtower.HeaderSafety

/-!
# The lines of a mail

Every value in the body of a mail is put behind a label and ended by a newline. Whether
the lines of the body are those of its labels is up to the values: what the patterns take
from a log line has no newline in it, but for the text between the third brackets.
-/

namespace Watchtower.Email

open Chrono Classify Ntfy Parse Text

/-- The text between the newlines. -/
def lines (text : String) : List (List Char) := text.toList.splitOn '\n'

/-- The text is these lines, each of them ended by a newline. -/
def Written (text : String) (lines : List String) : Prop :=
  text.toList = terminated '\n' (lines.map String.toList)

namespace Written
variable {text : String} {lines : List String} (written : Written text lines)
include written

theorem append {more : String} {moreLines : List String} (later : Written more moreLines) :
    Written (text ++ more) (lines ++ moreLines) := by
  rw [Written, String.toList_append, written, later, List.map_append, terminated_append]

theorem addEnding {ending unit : String} (hending : ending.toList = unit.toList ++ ['\n'])
    (label value : String) :
    Written (text ++ label ++ value ++ ending) (lines ++ [label ++ value ++ unit]) := by
  rw [Written] at written ⊢
  simp [written, hending, terminated_append, terminated_cons]

theorem addLine (label value : String) :
    Written (text ++ label ++ value ++ "\n") (lines ++ [label ++ value]) := by
  have hending : "\n".toList = "".toList ++ ['\n'] := by decide
  have hline := written.addEnding hending label value
  rwa [String.append_empty] at hline

theorem addOptional {label front : String} (hfront : "  " ++ label ++ "=" = front)
    (value : Option String) : Written (text ++ optionalLine label value)
      (lines ++ (value.map (front ++ ·)).toList) := by
  cases value with
  | none => simpa [optionalLine] using written
  | some value =>
    have hline := written.addLine front value
    have hoption : text ++ optionalLine label (some value) = text ++ front ++ value ++ "\n" := by
      rw [optionalLine, hfront, ← String.append_assoc, ← String.append_assoc]
    rw [hoption]
    exact hline

end Written

def senderLine : String :=
  "From plausiden-watchtower. Reply to this email to ack — the daemon " ++
    "keeps a 6h dedup so you won't be re-paged for the same rule/key."

/-- The lines of a body with a sample, each with its label. -/
def labelledLines (alert : Alert) (e : StructuredEvent) : List String :=
  ["Severity: " ++ severityName alert.severity,
    "Rule:     " ++ alert.rule,
    "Key:      " ++ alert.key,
    "Count:    " ++ toString alert.count,
    "Window:   " ++ toString alert.windowSecs ++ " seconds",
    "Fired:    " ++ DateTime.toRfc3339 alert.firedAt,
    "",
    "Sample event:"] ++
  (e.chain.map ("  chain=" ++ ·)).toList ++
  (e.rid.map ("  rid=" ++ ·)).toList ++
  (e.step.map ("  step=" ++ ·)).toList ++
  ["  source=" ++ e.source,
    "  message=" ++ e.message,
    "",
    "--",
    senderLine]

theorem written_head (alert : Alert) : Written
    ("Severity: " ++ severityName alert.severity ++ "\n" ++
      "Rule:     " ++ alert.rule ++ "\n" ++
      "Key:      " ++ alert.key ++ "\n" ++
      "Count:    " ++ toString alert.count ++ "\n" ++
      "Window:   " ++ toString alert.windowSecs ++ " seconds\n" ++
      "Fired:    " ++ DateTime.toRfc3339 alert.firedAt ++ "\n")
    ["Severity: " ++ severityName alert.severity,
      "Rule:     " ++ alert.rule,
      "Key:      " ++ alert.key,
      "Count:    " ++ toString alert.count,
      "Window:   " ++ toString alert.windowSecs ++ " seconds",
      "Fired:    " ++ DateTime.toRfc3339 alert.firedAt] := by
  have hending : " seconds\n".toList = " seconds".toList ++ ['\n'] := by decide
  have hnothing : Written "" [] := rfl
  have hseverity := hnothing.addLine "Severity: " (severityName alert.severity)
  rw [String.empty_append] at hseverity
  exact ((((hseverity.addLine _ _).addLine _ _).addLine _ _).addEnding hending _ _).addLine _ _

theorem written_sample (e : StructuredEvent) : Written (sampleBody e)
    (["", "Sample event:"] ++ (e.chain.map ("  chain=" ++ ·)).toList ++
      (e.rid.map ("  rid=" ++ ·)).toList ++ (e.step.map ("  step=" ++ ·)).toList ++
      ["  source=" ++ e.source] ++ ["  message=" ++ e.message]) := by
  have htitle : Written "\nSample event:\n" ["", "Sample event:"] := by
    rw [Written]
    decide
  exact ((((htitle.addOptional (by decide) e.chain).addOptional (by decide) e.rid).addOptional
    (by decide) e.step).addLine _ _).addLine _ _

theorem written_footer : Written
    ("\n--\nFrom plausiden-watchtower. Reply to this email to ack — the daemon " ++
      "keeps a 6h dedup so you won't be re-paged for the same rule/key.\n")
    ["", "--", senderLine] := by
  have hdashes : Written "\n--\n" ["", "--"] := by
    rw [Written]
    decide
  have hfront : "\n--\n" ++ "From plausiden-watchtower. Reply to this email to ack — the daemon " =
      "\n--\nFrom plausiden-watchtower. Reply to this email to ack — the daemon " := by decide
  have hback : "keeps a 6h dedup so you won't be re-paged for the same rule/key." ++ "\n" =
      "keeps a 6h dedup so you won't be re-paged for the same rule/key.\n" := by decide
  have hline := hdashes.addLine
    "From plausiden-watchtower. Reply to this email to ack — the daemon "
    "keeps a 6h dedup so you won't be re-paged for the same rule/key."
  rw [hfront, String.append_assoc, hback] at hline
  exact hline

theorem written_body {alert : Alert} {e : StructuredEvent} (sample : alert.sampleEvent = some e) :
    Written (body alert) (labelledLines alert e) := by
  have hgroups : ∀ first caption chain rid step source message last : List String,
      first ++ (caption ++ chain ++ rid ++ step ++ source ++ message) ++ last =
        first ++ caption ++ chain ++ rid ++ step ++ (source ++ message ++ last) := by
    simp only [List.append_assoc, implies_true]
  have hbody := ((written_head alert).append (written_sample e)).append written_footer
  rw [← String.append_assoc, hgroups] at hbody
  unfold body
  rw [sample, Option.map_some, Option.getD_some]
  exact hbody

/-! Texts without a newline. -/

def OneLine (s : String) : Prop := '\n' ∉ s.toList

theorem OneLine.append {s t : String} (hs : OneLine s) (ht : OneLine t) : OneLine (s ++ t) := by
  rw [OneLine, String.toList_append, List.mem_append, not_or]
  exact ⟨hs, ht⟩

theorem oneLine_append_iff {label value : String} (hlabel : OneLine label) :
    OneLine (label ++ value) ↔ OneLine value := by
  rw [OneLine, String.toList_append, List.mem_append, not_or]
  exact and_iff_right hlabel

theorem OneLine.labelled {label value : String} (h : OneLine value)
    (hlabel : label.toList.all notNewline = true) : OneLine (label ++ value) :=
  (oneLine_append_iff (oneLine_of_all hlabel)).mpr h

theorem severity_oneLine (severity : Severity) : OneLine (severityName severity) := by
  cases severity with
  | info => exact oneLine_of_all (by decide)
  | warn => exact oneLine_of_all (by decide)
  | page => exact oneLine_of_all (by decide)

theorem padded_oneLine (width n : Nat) : OneLine (padded width n) := fun h =>
  absurd (padded_digits width n _ h) (by decide)

theorem int_oneLine (i : Int) : OneLine (toString i) := by
  cases i with
  | ofNat n => exact (headerSafe_toString n).no_lf
  | negSucc n =>
    have hsign : OneLine "-" := oneLine_of_all (by decide)
    exact hsign.append (headerSafe_toString (n + 1)).no_lf

theorem yearText_oneLine (year : Int) : OneLine (yearText year) := by
  by_cases hfour : 0 ≤ year ∧ year ≤ 9999
  · rw [yearText_of_four hfour]
    exact padded_oneLine _ _
  · rw [OneLine, yearText_of_sign hfour, List.mem_cons, not_or]
    refine ⟨?_, padded_oneLine _ _⟩
    split
    · decide
    · decide

theorem fractionText_oneLine (nanos : Nat) : OneLine (fractionText nanos) := by
  have hdot : OneLine "." := oneLine_of_all (by decide)
  rw [fractionText]
  split
  · exact List.not_mem_nil
  · split
    · exact hdot.append (padded_oneLine _ _)
    · split
      · exact hdot.append (padded_oneLine _ _)
      · exact hdot.append (padded_oneLine _ _)

theorem rfc3339_oneLine (t : DateTime) : OneLine t.toRfc3339 := by
  have hdash : OneLine "-" := oneLine_of_all (by decide)
  have hT : OneLine "T" := oneLine_of_all (by decide)
  have hcolon : OneLine ":" := oneLine_of_all (by decide)
  have hzone : OneLine "+00:00" := oneLine_of_all (by decide)
  unfold DateTime.toRfc3339
  exact (((((((((((((yearText_oneLine _).append hdash).append (padded_oneLine _ _)).append
    hdash).append (padded_oneLine _ _)).append hT).append (padded_oneLine _ _)).append
    hcolon).append (padded_oneLine _ _)).append hcolon).append (padded_oneLine _ _)).append
    (fractionText_oneLine _)).append hzone)

section Parsed
variable {u : UnicodeClasses} {line : String} {e : StructuredEvent}

/-- The last group of the prefix stops at a newline, and has to reach the end. -/
theorem message_oneLine (parsed : parseLine u line = .structured e) : OneLine e.message := by
  obtain ⟨time, level, source, tail, hprefix⟩ := prefix_of_structured u parsed
  rw [parseLine_prefixed u hprefix] at parsed
  split at parsed
  · next hall =>
    obtain rfl := LogEvent.structured.inj parsed
    rw [OneLine, prefixEvent, String.toList_ofList]
    exact fun h => absurd (List.all_eq_true.mp hall _ h) (by decide)
  · cases parsed

theorem step_within (parsed : parseLine u line = .structured e) :
    ∀ v, e.step = some v → v.toList <:+: e.message.toList := by
  obtain ⟨time, level, source, tail, hprefix⟩ := prefix_of_structured u parsed
  rw [parseLine_prefixed u hprefix] at parsed
  split at parsed
  · obtain rfl := LogEvent.structured.inj parsed
    exact fun v hstep => (capturedField_split (recognises_step u) hstep).2
  · cases parsed

theorem chain_oneLine (parsed : parseLine u line = .structured e) :
    ∀ v ∈ e.chain, OneLine v := fun v h =>
  ((fieldsFormed_of_structured u parsed).chain v h).no_newline

theorem rid_oneLine (parsed : parseLine u line = .structured e) : ∀ v ∈ e.rid, OneLine v :=
  fun v h => ((fieldsFormed_of_structured u parsed).rid v h).no_newline

/-- White space may stand in a step, but a step is a part of the message. -/
theorem step_oneLine (parsed : parseLine u line = .structured e) : ∀ v ∈ e.step, OneLine v :=
  fun v h hmem => message_oneLine parsed ((step_within parsed v h).subset hmem)

theorem getD_oneLine {value : Option String} (h : ∀ v ∈ value, OneLine v) {default : String}
    (hdefault : OneLine default) : OneLine (value.getD default) := by
  cases value with
  | none => exact hdefault
  | some v => exact h v rfl

theorem key_oneLine (parsed : parseLine u line = .structured e) {rule : Rule}
    (mem : rule ∈ builtinRules) {key : String} (found : rule.matchesKey e = some key) :
    OneLine key := by
  have hany : OneLine "any" := oneLine_of_all (by decide)
  have hunspecified : OneLine "unspecified" := oneLine_of_all (by decide)
  have hglobal : OneLine "global" := oneLine_of_all (by decide)
  have hcolons : OneLine "::" := oneLine_of_all (by decide)
  have hchain := getD_oneLine (chain_oneLine parsed) hunspecified
  have hreject := ((getD_oneLine (chain_oneLine parsed) hany).append hcolons).append
    (getD_oneLine (step_oneLine parsed) hunspecified)
  simp only [builtinRules, List.mem_cons, List.not_mem_nil, or_false] at mem
  rcases mem with rfl | rfl | rfl | rfl | rfl <;>
    obtain ⟨_, hkey⟩ := Option.ite_none_right_eq_some.mp found <;>
    obtain rfl := Option.some.inj hkey
  · exact hany
  · exact hchain
  · exact hchain
  · exact hreject
  · exact hglobal

variable {alert : Alert} {rule : Rule}

/-- Of all the lines only that of the source can have a newline inside. -/
theorem labelled_oneLine_iff (parsed : parseLine u line = .structured e)
    (mem : rule ∈ builtinRules) (fired : alert.FiredOn rule e) :
    (∀ l ∈ labelledLines alert e, OneLine l) ↔ OneLine e.source := by
  constructor
  · intro all
    have hline := all ("  source=" ++ e.source) (by simp [labelledLines])
    exact (oneLine_append_iff (oneLine_of_all (by decide))).mp hline
  · intro hsource l hl
    have hname : OneLine alert.rule := fired.name ▸ (headerSafe_name mem).no_lf
    simp only [labelledLines, List.mem_append, List.mem_cons, List.not_mem_nil, or_false,
      Option.mem_toList, Option.map_eq_some_iff] at hl
    rcases hl with ((((rfl | rfl | rfl | rfl | rfl | rfl | rfl | rfl) | ⟨v, h, rfl⟩) |
      ⟨v, h, rfl⟩) | ⟨v, h, rfl⟩) | rfl | rfl | rfl | rfl | rfl
    · exact (severity_oneLine _).labelled (by decide)
    · exact hname.labelled (by decide)
    · exact (key_oneLine parsed mem fired.key).labelled (by decide)
    · have hcount : OneLine (toString alert.count) := (headerSafe_toString alert.count).no_lf
      exact hcount.labelled (by decide)
    · have hwindow : OneLine ("Window:   " ++ toString alert.windowSecs) :=
        (int_oneLine _).labelled (by decide)
      exact hwindow.append (oneLine_of_all (by decide))
    · exact (rfc3339_oneLine _).labelled (by decide)
    · exact oneLine_of_all (by decide)
    · exact oneLine_of_all (by decide)
    · exact (chain_oneLine parsed v h).labelled (by decide)
    · exact (rid_oneLine parsed v h).labelled (by decide)
    · exact (step_oneLine parsed v h).labelled (by decide)
    · exact hsource.labelled (by decide)
    · exact (message_oneLine parsed).labelled (by decide)
    · exact oneLine_of_all (by decide)
    · exact oneLine_of_all (by decide)
    · have hback : OneLine "keeps a 6h dedup so you won't be re-paged for the same rule/key." :=
        oneLine_of_all (by decide)
      exact hback.labelled (by decide)

end Parsed

/-- The number of optional lines. -/
def present (e : StructuredEvent) : Nat :=
  e.chain.toList.length + e.rid.toList.length + e.step.toList.length

/-- Every line of the body is that of a label with its value, and there are as many as the
fields of the sample make. -/
structure OnOwnLines (alert : Alert) (e : StructuredEvent) : Prop where
  own : lines (body alert) = (labelledLines alert e).map String.toList ++ [[]]
  count : (lines (body alert)).length = 14 + present e

theorem onOwnLines_iff {alert : Alert} {e : StructuredEvent} (sample : alert.sampleEvent = some e) :
    OnOwnLines alert e ↔ ∀ l ∈ labelledLines alert e, OneLine l := by
  have hlines : lines (body alert) = (labelledLines alert e).map String.toList ++ [[]] ↔
      ∀ l ∈ labelledLines alert e, OneLine l := by
    rw [lines, written_body sample, splitOn_terminated_iff, List.forall_mem_map]
    rfl
  constructor
  · exact fun own => hlines.mp own.own
  · intro oneLine
    have hown := hlines.mpr oneLine
    refine ⟨hown, ?_⟩
    rw [hown, labelledLines, present]
    simp only [List.length_append, List.length_map, List.length_cons, List.length_nil,
      Option.length_toList, Option.isSome_map]
    omega

/-- For every message, and whatever else it holds: the mail of its alert keeps its lines
unless the text between the third brackets has a newline. -/
theorem body_lines_iff (u : UnicodeClasses) (messages : List (String × DateTime)) (alert : Alert)
    (mem : alert ∈ Classifier.new.alerts (parsedCalls u messages)) (e : StructuredEvent)
    (sample : alert.sampleEvent = some e) : OnOwnLines alert e ↔ '\n' ∉ e.source.toList := by
  obtain ⟨rule, hrule, message, _, e', parsed, fired⟩ := firedOn_of_parsed mem
  obtain rfl : e' = e := Option.some.inj (fired.sample.symm.trans sample)
  rw [onOwnLines_iff sample, labelled_oneLine_iff parsed hrule fired]
  rfl

theorem commaFatal_parsed : parseLine .ascii commaFatal.raw = .structured commaFatal := by decide

theorem body_lines_iff_comma : OnOwnLines (fatalAlertOf commaFatal 0) commaFatal :=
  (body_lines_iff .ascii [(commaFatal.raw, 0)] (fatalAlertOf commaFatal 0)
    (fatalAlertOf_mem_parsed commaFatal_parsed rfl 0) commaFatal rfl).mpr (by decide)

/-- A source that goes on in a line that looks like one of the mail's own. -/
def brokenSource : StructuredEvent where
  level := .fatal
  source := "db\nSeverity: Info"
  chain := none
  rid := none
  step := none
  message := "down"
  raw := "[3 PM] [FATAL] [db\nSeverity: Info] down"

/-- The source begins a line of its own. -/
theorem source_breaks_line :
    ¬ ∀ (u : UnicodeClasses) (line : String) (now : DateTime) (alert : Alert)
      (e : StructuredEvent), alert ∈ Classifier.new.alerts (parsedCalls u [(line, now)]) →
      alert.severity = .page → alert.sampleEvent = some e → OnOwnLines alert e := by
  intro all
  have parsed : parseLine .ascii brokenSource.raw = .structured brokenSource := by decide
  have own := all .ascii brokenSource.raw 0 (fatalAlertOf brokenSource 0) brokenSource
    (fatalAlertOf_mem_parsed parsed rfl 0) rfl rfl
  have hsource := (onOwnLines_iff rfl).mp own ("  source=" ++ brokenSource.source)
    (by simp [labelledLines])
  exact absurd hsource (by rw [OneLine]; decide)

end Watchtower.Email
