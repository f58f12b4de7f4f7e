import Watchtower.AlertSpacing

/-!
# Lines with the bracket prefix

What it means for a line to carry the prefix, against what `parse_line` does with
it. The pattern ends in `.*$`, so the text after the prefix is read up to the end
only if it has no newline of its own.
-/

namespace Watchtower.Parse

open Chrono Classify Machine Regex Regex.Pattern

/-- The text begins with `[time]`, `[level]` and `[source]`, white space between them,
and goes on with the tail. -/
structure HasPrefix (text time level source tail : List Char) : Prop where
  time_ne : time ≠ []
  time_clean : ∀ c ∈ time, notBracket c
  level_ne : level ≠ []
  level_letters : ∀ c ∈ level, isAsciiLetter c
  source_ne : source ≠ []
  source_clean : ∀ c ∈ source, notBracket c
  split : ∃ gap gap' : List Char, gap ≠ [] ∧ (∀ c ∈ gap, isWhitespace c) ∧
    gap' ≠ [] ∧ (∀ c ∈ gap', isWhitespace c) ∧
    text = '[' :: (time ++ ']' :: (gap ++ '[' :: (level ++ ']' ::
      (gap' ++ '[' :: (source ++ ']' :: tail)))))

/-- The text after the prefix and the white space that follows it. -/
def remaining (tail : List Char) : List Char := tail.dropWhile isWhitespace

/-- The pattern reads a prefix in one way, and the rest of the text if it is one line. -/
theorem captures_prefixed {text time level source tail : List Char}
    (h : HasPrefix text time level source tail) :
    ∃ behind, captures bracketPrefix text =
      if (remaining tail).all notNewline then
        some ⟨behind, [], [("rest", remaining tail), ("source", source), ("level", level),
          ("time", time)]⟩
      else none := by
  obtain ⟨gap, gap', hgap, hgaps, hgap', hgaps', rfl⟩ := h.split
  rw [bracketPrefix, captures_start, run_lit_concat,
    run_group_lit h.time_ne h.time_clean (by decide), spaces,
    run_plus_lit hgap hgaps (by decide),
    run_group_lit h.level_ne h.level_letters (by decide),
    run_plus_lit hgap' hgaps' (by decide),
    run_group_lit h.source_ne h.source_clean (by decide), head_run_star_group_finish]
  exact ⟨_, rfl⟩

theorem prefix_of_captures {text : List Char} {c : Cursor Char String}
    (h : captures bracketPrefix text = some c) :
    ∃ time level source tail, HasPrefix text time level source tail := by
  rw [bracketPrefix, captures_start] at h
  obtain ⟨m₁, h₁, h⟩ := exists_of_mem_lit (List.mem_of_head? h)
  obtain ⟨time, m₂, htime, htimes, h₂, h⟩ := exists_of_mem_group_plus h
  obtain ⟨m₃, h₃, h⟩ := exists_of_mem_lit h
  obtain ⟨gap, m₄, hgap, hgaps, h₄, h⟩ := exists_of_mem_plus h
  obtain ⟨m₅, h₅, h⟩ := exists_of_mem_lit h
  obtain ⟨level, m₆, hlevel, hlevels, h₆, h⟩ := exists_of_mem_group_plus h
  obtain ⟨m₇, h₇, h⟩ := exists_of_mem_lit h
  obtain ⟨gap', m₈, hgap', hgaps', h₈, h⟩ := exists_of_mem_plus h
  obtain ⟨m₉, h₉, h⟩ := exists_of_mem_lit h
  obtain ⟨source, m₁₀, hsource, hsources, h₁₀, h⟩ := exists_of_mem_group_plus h
  obtain ⟨m₁₁, h₁₁, _⟩ := exists_of_mem_lit h
  refine ⟨time, level, source, m₁₁.ahead, htime, htimes, hlevel, hlevels, hsource, hsources,
    gap, gap', hgap, hgaps, hgap', hgaps', ?_⟩
  rw [← h₁₁, ← h₁₀, ← h₉, ← h₈, ← h₇, ← h₆, ← h₅, ← h₄, ← h₃, ← h₂]
  exact h₁

variable (u : UnicodeClasses)

/-- The event of a line with the prefix and one line of text after it. -/
def prefixEvent (line : String) (level source tail : List Char) : StructuredEvent where
  level := Level.parse (String.ofList level)
  source := String.ofList source
  chain := capturedField (fieldChain u) (String.ofList (remaining tail))
  rid := capturedField (fieldRid u) (String.ofList (remaining tail))
  step := capturedField (fieldStep u) (String.ofList (remaining tail))
  message := String.ofList (remaining tail)
  raw := line

theorem parseLine_prefixed {line : String} {time level source tail : List Char}
    (h : HasPrefix (trim line).toList time level source tail) :
    parseLine u line = if (remaining tail).all notNewline then
      .structured (prefixEvent u line level source tail) else .unstructured line := by
  obtain ⟨behind, hcaps⟩ := captures_prefixed h
  have hne : (trim line).isEmpty = false := by
    rw [← Bool.not_eq_true, String.isEmpty_iff]
    intro hempty
    obtain ⟨_, _, _, _, _, _, htext⟩ := h.split
    rw [hempty] at htext
    cases htext
  by_cases hall : (remaining tail).all notNewline
  · rw [if_pos hall] at hcaps
    simp only [parseLine, hne, hcaps, if_pos hall]
    rfl
  · rw [if_neg hall] at hcaps
    simp only [parseLine, hne, hcaps, if_neg hall]
    rfl

theorem prefix_of_structured {line : String} {e : StructuredEvent}
    (h : parseLine u line = .structured e) :
    ∃ time level source tail, HasPrefix (trim line).toList time level source tail := by
  rw [parseLine] at h
  cases hcaps : captures bracketPrefix (trim line).toList with
  | none => simp [hcaps] at h
  | some c => exact prefix_of_captures hcaps

/-- The line is read by its prefix: it is structured if and only if it has one, with the
fields of the prefix, and a fatal one is counted by the fatal rule. -/
structure PrefixRecognised (line : String) : Prop where
  structured_iff : (∃ e, parseLine u line = .structured e) ↔
    ∃ time level source tail, HasPrefix (trim line).toList time level source tail
  fields : ∀ time level source tail e, HasPrefix (trim line).toList time level source tail →
    parseLine u line = .structured e → e.level = Level.parse (String.ofList level) ∧
      e.source = String.ofList source ∧ e.message = String.ofList (remaining tail)
  counted : ∀ time level source tail, HasPrefix (trim line).toList time level source tail →
    Level.parse (String.ofList level) = .fatal → ∀ (past : List Call) (now : DateTime),
    ∃ e, e.raw = line ∧ ((((after Classifier.step .new past).step
      ⟨parseLine u line, now⟩).1.bucket (fatalAny.name, "any")).events.getLast? = some (now, e))

/-- A fatal event is recorded in the one bucket of the fatal rule. -/
theorem fatal_counted {e : StructuredEvent} (fatal : e.level = .fatal) (past : List Call)
    (now : DateTime) :
    ((((after Classifier.step .new past).step ⟨.structured e, now⟩).1.bucket
      (fatalAny.name, "any")).events.getLast?) = some (now, e) := by
  have hhit : fatalAny.hit "any" ⟨.structured e, now⟩ = some (now, e) := by
    simp [hit_eq_some, fatalAny, fatal]
  have hstep := Classifier.step_bucket (Classifier.after_distinct builtinTable past)
    ⟨.structured e, now⟩ (Classifier.after_mem_rules builtinTable List.mem_cons_self past) "any"
  rw [hhit] at hstep
  refine (congrArg (fun state => state.events.getLast?) hstep).trans ?_
  simp only [observeHit, observe_events, List.getLast?_append, List.getLast?_singleton,
    Option.some_or]

/-- A line is read by its prefix exactly when what follows the prefix is one line. -/
theorem prefix_recognised_iff (line : String) :
    PrefixRecognised u line ↔ ∀ time level source tail,
      HasPrefix (trim line).toList time level source tail → '\n' ∉ remaining tail := by
  have hone : ∀ tail, (remaining tail).all notNewline = true ↔ '\n' ∉ remaining tail := by
    intro tail
    simp only [List.all_eq_true, notNewline, bne_iff_ne]
    exact ⟨fun h hmem => h _ hmem rfl, fun h c hc heq => h (heq ▸ hc)⟩
  constructor
  · intro recognised time level source tail h hnewline
    obtain ⟨e, he⟩ := recognised.structured_iff.mpr ⟨time, level, source, tail, h⟩
    rw [parseLine_prefixed u h, if_neg fun hall => (hone tail).mp hall hnewline] at he
    cases he
  · intro hclean
    have hparse : ∀ time level source tail,
        HasPrefix (trim line).toList time level source tail →
        parseLine u line = .structured (prefixEvent u line level source tail) := by
      intro time level source tail h
      rw [parseLine_prefixed u h, if_pos ((hone tail).mpr (hclean time level source tail h))]
    constructor
    · constructor
      · rintro ⟨e, he⟩
        exact prefix_of_structured u he
      · rintro ⟨time, level, source, tail, h⟩
        exact ⟨_, hparse time level source tail h⟩
    · intro time level source tail e h he
      rw [hparse time level source tail h] at he
      obtain rfl := LogEvent.structured.inj he
      exact ⟨rfl, rfl, rfl⟩
    · intro time level source tail h hfatal past now
      refine ⟨prefixEvent u line level source tail, rfl, ?_⟩
      rw [hparse time level source tail h]
      exact fatal_counted hfatal past now

/-- A fatal message with a stack trace is not structured. -/
theorem multiline_fatal_unrecognised : ¬ ∀ (u : UnicodeClasses) line, PrefixRecognised u line := by
  intro all
  have hprefix : HasPrefix (trim "[3:55:50 PM] [FATAL] [storage] boom\n at x").toList
      "3:55:50 PM".toList "FATAL".toList "storage".toList " boom\n at x".toList :=
    ⟨by decide, List.all_eq_true.mp (by decide), by decide, List.all_eq_true.mp (by decide),
      by decide, List.all_eq_true.mp (by decide), [' '], [' '], by decide,
      List.all_eq_true.mp (by decide), by decide, List.all_eq_true.mp (by decide), by decide⟩
  obtain ⟨e, he⟩ := (all .ascii "[3:55:50 PM] [FATAL] [storage] boom\n at x").structured_iff.mpr
    ⟨_, _, _, _, hprefix⟩
  have hlost : parseLine .ascii "[3:55:50 PM] [FATAL] [storage] boom\n at x" =
      .unstructured "[3:55:50 PM] [FATAL] [storage] boom\n at x" := by decide
  rw [hlost] at he
  cases he

end Watchtower.Parse
