import Watchtower.BracketPrefix
import Watchtower.Foundation.RegexSearch
import Watchtower.Foundation.Text

/-!
# What the field patterns capture

What stands in `chain`, `rid` and `step` of an event, whatever the line was, and
what the three patterns find in a line that carries the fields in their order. The
text behind the fields is free and may repeat the keys.
-/

namespace Watchtower.Parse

open Regex Regex.Pattern Text

def trimEnd (s : String) : String := String.ofList (s.toList.rdropWhile isWhitespace)

/-- A run of white space. -/
def IsGap (w : List Char) : Prop := w ≠ [] ∧ ∀ c ∈ w, isWhitespace c

/-- A run of other characters. -/
def IsWord (w : List Char) : Prop := w ≠ [] ∧ ∀ c ∈ w, isWhitespace c = false

/-- A value of `chain` or `rid`. -/
def IsToken (w : List Char) : Prop := w ≠ [] ∧ ∀ c ∈ w, fieldChar c

theorem isWord_of_all {w : List Char} (hne : w ≠ [])
    (h : (w.all fun c => !isWhitespace c) = true) : IsWord w :=
  ⟨hne, fun c hc => by simpa using List.all_eq_true.mp h c hc⟩

theorem isToken_of_all {w : List Char} (hne : w ≠ []) (h : w.all fieldChar = true) : IsToken w :=
  ⟨hne, List.all_eq_true.mp h⟩

theorem fieldChar_range {c : Char} (h : fieldChar c) : 0x21 ≤ c.toNat ∧ c.toNat ≤ 0x7E := by
  delta fieldChar Char.isAlphanum Char.isAlpha Char.isUpper Char.isLower Char.isDigit at h
  simp only [Bool.or_eq_true, Bool.and_eq_true, decide_eq_true_eq, beq_iff_eq,
    UInt32.le_iff_toNat_le, ge_iff_le] at h
  unfold Char.toNat
  rcases h with ((((⟨h, h'⟩ | ⟨h, h'⟩) | ⟨h, h'⟩) | rfl) | rfl)
  · exact ⟨Nat.le_trans (by decide) h, Nat.le_trans h' (by decide)⟩
  · exact ⟨Nat.le_trans (by decide) h, Nat.le_trans h' (by decide)⟩
  · exact ⟨Nat.le_trans (by decide) h, Nat.le_trans h' (by decide)⟩
  · decide
  · decide

/-- No visible ASCII character is white space. -/
theorem not_whitespace_of_range {c : Char} (h : 0x21 ≤ c.toNat ∧ c.toNat ≤ 0x7E) :
    isWhitespace c = false := by
  simp only [isWhitespace, Bool.or_eq_false_iff, Bool.and_eq_false_iff, decide_eq_false_iff_not,
    beq_eq_false_iff_ne]
  omega

/-- What a field captures is a part of the text and a word of the language of its body. -/
theorem capturedField_split {word : Char → Bool} {key : List Char}
    {body : Pattern Char String} {L : List Char → Prop} (recognises : Recognises body L)
    {rest v : String}
    (h : capturedField (field word key (.group "v" body)) rest = some v) :
    L v.toList ∧ v.toList <:+: rest.toList := by
  rw [capturedField, Option.map_eq_some_iff] at h
  obtain ⟨w, hw, rfl⟩ := h
  obtain ⟨d, hd, hnamed⟩ := Option.bind_eq_some_iff.mp hw
  obtain ⟨x, y, hrest, hmem⟩ := mem_of_search hd
  obtain ⟨m, hkey, hgroup⟩ := mem_run_field hmem
  obtain ⟨w', hw', hahead, hcaps⟩ := mem_run_group recognises hgroup
  rw [Cursor.named, hcaps, List.lookup_cons_self, Option.some.injEq] at hnamed
  rw [String.toList_ofList, ← hnamed]
  refine ⟨hw', x ++ key, d.ahead, ?_⟩
  have hbehind : y = key ++ m.ahead := hkey.ahead
  rw [hrest, hbehind, hahead, List.append_assoc, List.append_assoc]

theorem capturedField_of_recognises {word : Char → Bool} {key : List Char}
    {body : Pattern Char String} {L : List Char → Prop} (recognises : Recognises body L)
    {rest v : String}
    (h : capturedField (field word key (.group "v" body)) rest = some v) : L v.toList :=
  (capturedField_split recognises h).1

variable (u : UnicodeClasses)

theorem isToken_of_chain {rest v : String} (h : capturedField (fieldChain u) rest = some v) :
    IsToken v.toList :=
  capturedField_of_recognises (recognises_plus_cls true fieldChar) h

theorem isToken_of_rid {rest v : String} (h : capturedField (fieldRid u) rest = some v) :
    IsToken v.toList :=
  capturedField_of_recognises (recognises_plus_cls true fieldChar) h

/-- The part of a line up to its step: `[time] [level] [source] chain=.. rid=.. step=`. -/
structure Header where
  time : String
  level : String
  source : String
  chain : String
  rid : String
  time_ne : time.toList ≠ []
  time_clean : ∀ c ∈ time.toList, notBracket c
  level_ne : level.toList ≠ []
  level_letters : ∀ c ∈ level.toList, isAsciiLetter c
  source_ne : source.toList ≠ []
  source_clean : ∀ c ∈ source.toList, notBracket c
  chain_token : IsToken chain.toList
  rid_token : IsToken rid.toList

namespace Header
variable (h : Header)

def fields : String := "chain=" ++ h.chain ++ " rid=" ++ h.rid ++ " step="

def text : String :=
  "[" ++ h.time ++ "] [" ++ h.level ++ "] [" ++ h.source ++ "] " ++ h.fields

theorem fields_toList : h.fields.toList = "chain=".toList ++ (h.chain.toList ++ (' ' ::
    ("rid=".toList ++ (h.rid.toList ++ (' ' :: "step=".toList))))) := by
  simp [fields]

theorem text_toList : h.text.toList = '[' :: (h.time.toList ++ ']' :: ([' '] ++ '[' ::
    (h.level.toList ++ ']' :: ([' '] ++ '[' :: (h.source.toList ++ ']' ::
      (' ' :: h.fields.toList)))))) := by
  simp [text]

end Header

/-- The text ends in a character that is no white space. -/
def EndsInWord (body : String) : Prop :=
  ∃ front last, body.toList = front ++ [last] ∧ isWhitespace last = false

theorem IsWord.endsInWord {s : String} (word : IsWord s.toList) (front : String) :
    EndsInWord (front ++ s) := by
  refine ⟨front.toList ++ s.toList.dropLast, s.toList.getLast word.1, ?_,
    word.2 _ (List.getLast_mem word.1)⟩
  rw [String.toList_append, List.append_assoc, List.dropLast_append_getLast]

variable {u}

theorem trimEnd_append {body : String} (hbody : EndsInWord body) (front tail : String) :
    trimEnd (front ++ body ++ tail) = front ++ body ++ trimEnd tail := by
  obtain ⟨start, last, hlist, hlast⟩ := hbody
  apply String.toList_injective
  have hsplit : (front ++ body ++ tail).toList =
      (front.toList ++ start) ++ last :: tail.toList := by
    simp [hlist]
  rw [trimEnd, String.toList_ofList, hsplit, rdropWhile_append_of_last hlast,
    String.toList_append, String.toList_append, hlist, trimEnd, String.toList_ofList]
  simp

/-- A text with no white space at its ends. -/
theorem trim_eq_self {s : String} {first last : Char} {middle : List Char}
    (hs : s.toList = first :: (middle ++ [last])) (hfirst : isWhitespace first = false)
    (hlast : isWhitespace last = false) : trim s = s := by
  apply String.toList_injective
  have hstart : s.toList.dropWhile isWhitespace = s.toList := by
    rw [hs, List.dropWhile_cons_of_neg (by simp [hfirst])]
  rw [trim, String.toList_ofList, hstart, hs, ← List.cons_append,
    rdropWhile_append_of_last hlast, List.rdropWhile_nil]

theorem trim_header (h : Header) {body : String} (hbody : EndsInWord body) (tail : String) :
    trim (h.text ++ body ++ tail) = h.text ++ body ++ trimEnd tail := by
  have hstart : (h.text ++ body ++ tail).toList.dropWhile isWhitespace =
      (h.text ++ body ++ tail).toList := by
    rw [String.toList_append, String.toList_append, h.text_toList]
    simp [isWhitespace]
  rw [← trimEnd_append hbody, trim, hstart]
  rfl

/-- A token keeps the key of a field out, up to the blank behind it. -/
theorem IsToken.clear {key w : List Char} (token : IsToken w) (heq : '=' ∈ key)
    (hblank : ' ' ∉ key) (rest : List Char) : Clear key w (' ' :: rest) := by
  refine clear_of_stop heq (fun hmem => ?_) hblank rest
  exact absurd (token.2 '=' hmem) (by decide)

theorem search_token {word : Char → Bool} {key behind w rest : List Char}
    (hbound : (behind.head?.any word != (key ++ (w ++ rest)).head?.any word) = true)
    (token : IsToken w) (hrest : ∀ c ∈ rest.head?, fieldChar c = false) :
    (search (field word key (.group "v" (plus true (.cls fieldChar)))) behind
      (key ++ (w ++ rest))).bind (·.named "v") = some w :=
  search_field hbound (prefers_plus_cls rfl token.1 token.2 hrest)

section Search
variable (u) (h : Header) (rest : List Char)

theorem word_of_ascii {c : Char} (hc : c.toNat < 128) (hword : (c.isAlphanum || c == '_') = true) :
    u.word c = true := (u.word_ascii c hc).trans hword

theorem word_blank : u.word ' ' = false := (u.word_ascii ' ' (by decide)).trans (by decide)

/-- The first field stands at the start of the text. -/
theorem search_chain : (search (fieldChain u) [] (h.fields.toList ++ rest)).bind
    (·.named "v") = some h.chain.toList := by
  rw [h.fields_toList, List.append_assoc, List.append_assoc]
  refine search_token ?_ h.chain_token ?_
  · simp [word_of_ascii u (c := 'c') (by decide) (by decide)]
  · rintro c ⟨⟩
    decide

/-- The second field stands behind the first and a blank. -/
theorem search_rid : (search (fieldRid u) [] (h.fields.toList ++ rest)).bind
    (·.named "v") = some h.rid.toList := by
  have hclear : Clear "rid=".toList ("chain=".toList ++ (h.chain.toList ++ [' ']))
      ("rid=".toList ++ (h.rid.toList ++ (' ' :: "step=".toList ++ rest))) := by
    refine Clear.append (clear_of_head (by decide) _) (Clear.append ?_ ?_)
    · exact h.chain_token.clear (by decide) (by decide) _
    · exact clear_of_head (by decide) _
  have hsplit : h.fields.toList ++ rest = ("chain=".toList ++ (h.chain.toList ++ [' '])) ++
      ("rid=".toList ++ (h.rid.toList ++ (' ' :: "step=".toList ++ rest))) := by
    rw [h.fields_toList]
    simp only [List.append_assoc, List.cons_append, List.nil_append]
  rw [hsplit]
  refine (congrArg (Option.bind · (·.named "v")) (search_field_skip hclear)).trans ?_
  refine search_token ?_ h.rid_token ?_
  · simp [word_of_ascii u (c := 'r') (by decide) (by decide), word_blank]
  · rintro c ⟨⟩
    decide

/-- What stands before the step, nearest first. -/
def Header.beforeStep : List Char :=
  ("chain=".toList ++ (h.chain.toList ++ ([' '] ++ ("rid=".toList ++
    (h.rid.toList ++ [' ']))))).reverse

/-- The first place where a step is looked for is the third field. -/
theorem search_step : search (fieldStep u) [] (h.fields.toList ++ rest) =
    search (fieldStep u) h.beforeStep ("step=".toList ++ rest) := by
  have hclear : Clear "step=".toList ("chain=".toList ++ (h.chain.toList ++ ([' '] ++
      ("rid=".toList ++ (h.rid.toList ++ [' ']))))) ("step=".toList ++ rest) := by
    refine Clear.append (clear_of_head (by decide) _) (Clear.append ?_ ?_)
    · exact h.chain_token.clear (by decide) (by decide) _
    · refine Clear.append (clear_of_head (by decide) _) ?_
      refine Clear.append (clear_of_head (by decide) _) (Clear.append ?_ ?_)
      · exact h.rid_token.clear (by decide) (by decide) _
      · exact clear_of_head (by decide) _
  have hsplit : h.fields.toList ++ rest = ("chain=".toList ++ (h.chain.toList ++ ([' '] ++
      ("rid=".toList ++ (h.rid.toList ++ [' ']))))) ++ ("step=".toList ++ rest) := by
    rw [h.fields_toList]
    simp only [List.append_assoc, List.cons_append, List.nil_append]
  rw [hsplit]
  refine (search_field_skip hclear).trans ?_
  rw [List.append_nil, Header.beforeStep]
  rfl

end Search

variable (u)

/-- A run of digits. -/
def IsDigits (w : List Char) : Prop := w ≠ [] ∧ ∀ c ∈ w, u.digit c

/-- White space and a fraction `digits/digits`. -/
def IsFraction (w : List Char) : Prop :=
  ∃ gap index total, IsGap gap ∧ IsDigits u index ∧ IsDigits u total ∧
    w = gap ++ (index ++ '/' :: total)

/-- White space and a word. -/
def IsBlock (w : List Char) : Prop := ∃ gap word, IsGap gap ∧ IsWord word ∧ w = gap ++ word

/-- A value of `step`: words with white space between them, and a fraction. -/
def IsStep (w : List Char) : Prop :=
  ∃ first fraction, ∃ blocks : List (List Char), IsWord first ∧ (∀ block ∈ blocks, IsBlock block) ∧
    IsFraction u fraction ∧ w = first ++ (blocks.flatten ++ fraction)

/-- The body of the group of `field_step`. -/
def stepBody : Pattern Char String :=
  concat [plus true (.cls fun c => !isWhitespace c),
    .star false (concat [spaces, plus true (.cls fun c => !isWhitespace c)]),
    spaces, plus true (.cls u.digit), lit '/', plus true (.cls u.digit)]

theorem recognises_word : Recognises
    (plus true (.cls fun c => !isWhitespace c) : Pattern Char String) IsWord := by
  refine (recognises_plus_cls true fun c => !isWhitespace c).congr fun w => ?_
  simp [IsWord]

theorem recognises_block : Recognises
    (concat [spaces, plus true (.cls fun c => !isWhitespace c)] : Pattern Char String)
    IsBlock := by
  have hgap : Recognises spaces IsGap := recognises_plus_cls true isWhitespace
  refine (hgap.concat_cons (recognises_word.concat_cons recognises_concat_nil)).congr ?_
  intro w
  simp [IsBlock]

theorem recognises_fraction : Recognises
    (concat [spaces, plus true (.cls u.digit), lit '/', plus true (.cls u.digit)] :
      Pattern Char String) (IsFraction u) := by
  have hgap : Recognises spaces IsGap := recognises_plus_cls true isWhitespace
  have hdigits : Recognises (plus true (.cls u.digit) : Pattern Char String) (IsDigits u) :=
    recognises_plus_cls true u.digit
  refine (hgap.concat_cons (hdigits.concat_cons ((recognises_lit '/').concat_cons
    (hdigits.concat_cons recognises_concat_nil)))).congr ?_
  intro w
  constructor
  · rintro ⟨gap, _, hg, ⟨index, _, hi, ⟨_, _, rfl, ⟨total, _, ht, rfl, rfl⟩, rfl⟩, rfl⟩, rfl⟩
    exact ⟨gap, index, total, hg, hi, ht, by simp⟩
  · rintro ⟨gap, index, total, hg, hi, ht, rfl⟩
    exact ⟨gap, _, hg, ⟨index, _, hi, ⟨['/'], total, rfl, ⟨total, [], ht, rfl, by simp⟩,
      rfl⟩, rfl⟩, rfl⟩

theorem recognises_step : Recognises (stepBody u) (IsStep u) := by
  have hblocks := recognises_block.star (fun w h => ?_) false
  · refine (recognises_word.concat_cons (hblocks.concat_cons (recognises_fraction u))).congr ?_
    intro w
    constructor
    · rintro ⟨first, _, hf, ⟨_, fraction, ⟨blocks, hb, rfl⟩, hfr, rfl⟩, rfl⟩
      exact ⟨first, fraction, blocks, hf, hb, hfr, rfl⟩
    · rintro ⟨first, fraction, blocks, hf, hb, hfr, rfl⟩
      exact ⟨first, _, hf, ⟨_, fraction, ⟨blocks, hb, rfl⟩, hfr, rfl⟩, rfl⟩
  · obtain ⟨gap, word, hgap, _, rfl⟩ := h
    exact fun hnil => hgap.1 (List.append_eq_nil_iff.mp hnil).1

theorem isStep_of_step {rest v : String} (h : capturedField (fieldStep u) rest = some v) :
    IsStep u v.toList :=
  capturedField_of_recognises (recognises_step u) h

/-- What the patterns put into an event. -/
structure FieldsFormed (e : StructuredEvent) : Prop where
  chain : ∀ v, e.chain = some v → IsToken v.toList
  rid : ∀ v, e.rid = some v → IsToken v.toList
  step : ∀ v, e.step = some v → IsStep u v.toList

theorem fieldsFormed_of_structured {line : String} {e : StructuredEvent}
    (h : parseLine u line = .structured e) : FieldsFormed u e := by
  rw [parseLine] at h
  cases hcaps : captures bracketPrefix (trim line).toList with
  | none => simp [hcaps] at h
  | some caps =>
    simp only [hcaps] at h
    split at h
    · cases h
    · obtain rfl := LogEvent.structured.inj h
      exact ⟨fun v => isToken_of_chain u, fun v => isToken_of_rid u, fun v => isStep_of_step u⟩

/-! Lines that begin with a header. -/

/-- The event of a line with a header and the text from `chain=` on. -/
def Header.event (h : Header) (line rest : String) : StructuredEvent where
  level := Level.parse h.level
  source := h.source
  chain := some h.chain
  rid := some h.rid
  step := capturedField (fieldStep u) rest
  message := rest
  raw := line

theorem mem_trimEnd {tail : String} {c : Char} (h : c ∈ (trimEnd tail).toList) :
    c ∈ tail.toList := by
  rw [trimEnd, String.toList_ofList] at h
  exact (List.rdropWhile_prefix isWhitespace tail.toList).subset h

theorem IsToken.no_newline {w : List Char} (token : IsToken w) : '\n' ∉ w := fun h =>
  absurd (token.2 _ h) (by decide)

theorem oneLine_of_all {s : String} (h : s.toList.all notNewline = true) : '\n' ∉ s.toList :=
  fun hmem => absurd (List.all_eq_true.mp h _ hmem) (by decide)

theorem hasPrefix_header (h : Header) {body : String} (hbody : EndsInWord body) (tail : String) :
    HasPrefix (trim (h.text ++ body ++ tail)).toList h.time.toList h.level.toList
      h.source.toList (' ' :: (h.fields ++ body ++ trimEnd tail).toList) := by
  refine ⟨h.time_ne, h.time_clean, h.level_ne, h.level_letters, h.source_ne, h.source_clean,
    [' '], [' '], by simp, by simp [isWhitespace], by simp, by simp [isWhitespace], ?_⟩
  rw [trim_header h hbody, String.toList_append, String.toList_append, h.text_toList]
  simp

theorem parseLine_header (h : Header) {body tail : String} (hbody : EndsInWord body)
    (hline : '\n' ∉ body.toList ++ tail.toList) :
    parseLine u (h.text ++ body ++ tail) = .structured
      (h.event u (h.text ++ body ++ tail) (h.fields ++ body ++ trimEnd tail)) := by
  have hrest : remaining (' ' :: (h.fields ++ body ++ trimEnd tail).toList) =
      (h.fields ++ body ++ trimEnd tail).toList := by
    rw [String.toList_append, String.toList_append, h.fields_toList]
    simp [remaining, isWhitespace]
  have hone : (remaining (' ' :: (h.fields ++ body ++ trimEnd tail).toList)).all notNewline := by
    rw [hrest, List.all_eq_true]
    rintro c hc
    rw [notNewline, bne_iff_ne]
    rintro rfl
    rw [String.toList_append, String.toList_append, h.fields_toList] at hc
    simp only [List.mem_append, List.mem_cons] at hc hline
    have hchain := h.chain_token.no_newline
    have hrid := h.rid_token.no_newline
    have htail : '\n' ∉ (trimEnd tail).toList := fun hmem => hline (Or.inr (mem_trimEnd hmem))
    simp [hchain, hrid, htail] at hc
    exact hline (Or.inl hc)
  rw [parseLine_prefixed u (hasPrefix_header h hbody tail), if_pos hone]
  have hfields : (h.fields ++ body ++ trimEnd tail).toList =
      h.fields.toList ++ (body.toList ++ (trimEnd tail).toList) := by
    rw [String.toList_append, String.toList_append, List.append_assoc]
  have hchain : capturedField (fieldChain u) (h.fields ++ body ++ trimEnd tail) =
      some h.chain := by
    rw [capturedField, hfields]
    refine (congrArg (Option.map String.ofList) (search_chain u h _)).trans ?_
    rw [Option.map_some, String.ofList_toList]
  have hrid : capturedField (fieldRid u) (h.fields ++ body ++ trimEnd tail) = some h.rid := by
    rw [capturedField, hfields]
    refine (congrArg (Option.map String.ofList) (search_rid u h _)).trans ?_
    rw [Option.map_some, String.ofList_toList]
  simp only [prefixEvent, hrest, String.ofList_toList, hchain, hrid]
  rfl

/-- The preferred match behind the third key is what is captured. -/
theorem step_of_prefers (h : Header) {body : String} {w : List Char}
    (prefers : Prefers (stepBody u)
      ⟨"step=".toList.reverse ++ h.beforeStep, body.toList, []⟩ w) :
    capturedField (fieldStep u) (h.fields ++ body) = some (String.ofList w) := by
  have hbound : (h.beforeStep.head?.any u.word !=
      ("step=".toList ++ body.toList).head?.any u.word) = true := by
    simp [Header.beforeStep, word_of_ascii u (c := 's') (by decide) (by decide), word_blank]
  have hsearch := search_step u h body.toList
  rw [capturedField, String.toList_append, captures, hsearch]
  exact congrArg (Option.map String.ofList) (search_field hbound prefers)

end Watchtower.Parse
