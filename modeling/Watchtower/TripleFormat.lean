import Watchtower.Fields

/-!
# The full triple

The format of the service logs, header, words and fraction, against what `parse_line`
makes of it. The step ends at the first fraction behind white space, so whatever
follows the fraction is free text, and the fields are taken from before it.
-/

namespace Watchtower.Parse

open Regex Regex.Pattern

variable {u : UnicodeClasses}

/-- A run of digits, none of which is white space too. -/
def IsNumber (u : UnicodeClasses) (w : List Char) : Prop :=
  IsDigits u w ∧ ∀ c ∈ w, isWhitespace c = false

theorem isNumber_of_all {u : UnicodeClasses} {w : List Char} (hne : w ≠ [])
    (h : (w.all fun c => u.digit c && !isWhitespace c) = true) : IsNumber u w := by
  have hall : ∀ c ∈ w, u.digit c = true ∧ isWhitespace c = false := fun c hc => by
    simpa using List.all_eq_true.mp h c hc
  exact ⟨⟨hne, fun c hc => (hall c hc).1⟩, fun c hc => (hall c hc).2⟩

/-- The word begins with `digits/digits`. -/
def BeginsWithFraction (u : UnicodeClasses) (w : List Char) : Prop :=
  ∃ index total rest, IsDigits u index ∧ IsDigits u total ∧ w = index ++ '/' :: total ++ rest

/-- A line up to its fraction: the header, words with one blank between them, and the
fraction. -/
structure Triple (u : UnicodeClasses) extends Header where
  first : String
  later : List String
  index : String
  total : String
  first_word : IsWord first.toList
  later_words : ∀ word ∈ later, IsWord word.toList
  later_plain : ∀ word ∈ later, ¬ BeginsWithFraction u word.toList
  index_number : IsNumber u index.toList
  total_number : IsNumber u total.toList

/-- `D n/m` -/
def Triple.step (t : Triple u) : String :=
  " ".intercalate (t.first :: t.later) ++ " " ++ t.index ++ "/" ++ t.total

/-- Nothing, or a blank and one line of text. -/
def IsTail (tail : String) : Prop := tail = "" ∨ ∃ text, tail = " " ++ text ∧ '\n' ∉ text.toList

theorem intercalate_toList (first : String) (later : List String) :
    (" ".intercalate (first :: later)).toList =
      first.toList ++ later.flatMap fun word => ' ' :: word.toList := by
  induction later generalizing first with
  | nil => simp
  | cons word later ih =>
    rw [String.intercalate_cons_cons, String.toList_append, String.toList_append, ih]
    simp

theorem Triple.step_toList (t : Triple u) : t.step.toList = t.first.toList ++
    ((t.later.flatMap fun word => ' ' :: word.toList) ++
      ([' '] ++ (t.index.toList ++ (['/'] ++ (t.total.toList ++ []))))) := by
  simp only [step, String.toList_append, intercalate_toList]
  simp

section Step
variable (u)

/-- The patterns behind the words. -/
def fractionParts : List (Pattern Char String) :=
  [spaces, plus true (.cls u.digit), lit '/', plus true (.cls u.digit)]

variable {u}

theorem not_digit_of_ascii {c : Char} (hc : c.toNat < 128) (hdigit : c.isDigit = false) :
    u.digit c = false := (u.digit_ascii c hc).trans hdigit

theorem digit_blank : u.digit ' ' = false := not_digit_of_ascii (by decide) (by decide)

theorem digit_slash : u.digit '/' = false := not_digit_of_ascii (by decide) (by decide)

theorem IsTail.head {tail : String} (htail : IsTail tail) : ∀ c ∈ tail.toList.head?, c = ' ' := by
  rcases htail with rfl | ⟨text, rfl, _⟩
  · simp
  · simp [eq_comm]

theorem IsWord.head {w : List Char} (word : IsWord w) (rest : List Char) :
    ∀ a ∈ (w ++ rest).head?, isWhitespace a = false := by
  obtain ⟨b, w, rfl⟩ := List.exists_cons_of_ne_nil word.1
  rintro a ⟨⟩
  exact word.2 b List.mem_cons_self

theorem IsNumber.isWord {w : List Char} (number : IsNumber u w) : IsWord w :=
  ⟨number.1.1, number.2⟩

/-- White space that begins with a blank in front of a word is that blank. -/
theorem gap_eq_blank {gap x y : List Char} (hgap : IsGap gap)
    (hy : ∀ a ∈ y.head?, isWhitespace a = false) (heq : gap ++ x = [' '] ++ y) : gap = [' '] := by
  obtain ⟨b, gap, rfl⟩ := List.exists_cons_of_ne_nil hgap.1
  obtain ⟨rfl, htail⟩ := List.cons.inj heq
  cases gap with
  | nil => rfl
  | cons a gap =>
    have hfirst : a ∈ y.head? := by
      rw [show y = a :: (gap ++ x) from htail.symm]
      rfl
    have hspace := hgap.2 a (by simp)
    rw [hy a hfirst] at hspace
    cases hspace

/-- A fraction behind a blank is read with all the digits of its total. -/
theorem prefers_fraction {index total rest : List Char} {c : Cursor Char String}
    (hc : c.ahead = [' '] ++ (index ++ (['/'] ++ (total ++ rest))))
    (hindex : IsNumber u index) (htotal : IsNumber u total)
    (hrest : ∀ a ∈ rest.head?, u.digit a = false) :
    Prefers (concat (fractionParts u)) c ([' '] ++ (index ++ (['/'] ++ (total ++ [])))) := by
  refine Prefers.concat_cons (prefers_plus_cls hc (by simp) (by simp [isWhitespace])
    (hindex.isWord.head _)) ?_
  intro m₁ reads₁
  have h₁ := List.append_cancel_left (reads₁.ahead.symm.trans hc)
  refine Prefers.concat_cons (prefers_plus_cls h₁ hindex.1.1 hindex.1.2 ?_) ?_
  · rintro a ⟨⟩
    exact digit_slash
  intro m₂ reads₂
  have h₂ := List.append_cancel_left (reads₂.ahead.symm.trans h₁)
  refine Prefers.concat_cons (prefers_lit h₂) ?_
  intro m₃ reads₃
  have h₃ := List.append_cancel_left (reads₃.ahead.symm.trans h₂)
  exact Prefers.concat_cons (prefers_plus_cls h₃ htotal.1.1 htotal.1.2 hrest)
    fun m₄ _ => prefers_concat_nil m₄

/-- No fraction is read behind a blank where a word does not begin with one. -/
theorem fraction_refuses {word rest : List Char} {c : Cursor Char String}
    (hc : c.ahead = [' '] ++ (word ++ ' ' :: rest)) (hword : IsWord word)
    (plain : ¬ BeginsWithFraction u word) : run (concat (fractionParts u)) c = [] := by
  rw [List.eq_nil_iff_forall_not_mem]
  intro d hd
  obtain ⟨_, ⟨gap, index, total, hgap, hindex, htotal, rfl⟩, reads⟩ :=
    (recognises_fraction u c d).mp hd
  have heq := reads.ahead.symm.trans hc
  rw [List.append_assoc] at heq
  obtain rfl : gap = [' '] := gap_eq_blank hgap (hword.head _) heq
  have hblank : ' ' ∉ index ++ '/' :: total := by
    rw [List.mem_append, List.mem_cons]
    rintro (hmem | hmem | hmem)
    · exact absurd (hindex.2 ' ' hmem) (by simp [digit_blank])
    · exact absurd hmem (by decide)
    · exact absurd (htotal.2 ' ' hmem) (by simp [digit_blank])
  rcases List.append_eq_append_iff.mp (List.append_cancel_left heq) with
    ⟨more, hword', _⟩ | ⟨more, hfraction, hmore⟩
  · exact plain ⟨index, total, more, hindex, htotal, hword'⟩
  · cases more with
    | nil =>
      refine plain ⟨index, total, [], hindex, htotal, ?_⟩
      rw [hfraction, List.append_nil, List.append_nil]
    | cons b more =>
      obtain ⟨rfl, _⟩ := List.cons.inj hmore
      exact hblank (hfraction ▸ List.mem_append_right word List.mem_cons_self)

/-- A word between blanks is read whole. -/
theorem prefers_block {word more : List Char} {c : Cursor Char String}
    (hc : c.ahead = [' '] ++ (word ++ ' ' :: more)) (hword : IsWord word) :
    Prefers (concat [spaces, plus true (.cls fun c => !isWhitespace c)]) c
      ([' '] ++ (word ++ [])) := by
  refine Prefers.concat_cons (prefers_plus_cls hc (by simp) (by simp [isWhitespace])
    (hword.head _)) fun m reads => ?_
  have hm := List.append_cancel_left (reads.ahead.symm.trans hc)
  refine Prefers.concat_cons (prefers_plus_cls hm hword.1 (by simpa using hword.2) ?_)
    fun m' _ => prefers_concat_nil m'
  rintro a ⟨⟩
  decide

/-- The lazy repetition passes over the words and stops at the fraction. -/
theorem prefers_words {later : List (List Char)} {index total rest : List Char}
    (words : ∀ word ∈ later, IsWord word) (plain : ∀ word ∈ later, ¬ BeginsWithFraction u word)
    (hindex : IsNumber u index) (htotal : IsNumber u total)
    (hrest : ∀ a ∈ rest.head?, u.digit a = false) {c : Cursor Char String}
    (hc : c.ahead = (later.flatMap fun word => ' ' :: word) ++
      ([' '] ++ (index ++ (['/'] ++ (total ++ rest))))) :
    Prefers (concat (.star false (concat [spaces, plus true (.cls fun c => !isWhitespace c)]) ::
      fractionParts u)) c ((later.flatMap fun word => ' ' :: word) ++
        ([' '] ++ (index ++ (['/'] ++ (total ++ []))))) := by
  induction later generalizing c with
  | nil => exact (prefers_fraction hc hindex htotal hrest).lazy_stop
  | cons word later ih =>
    have hword := words word List.mem_cons_self
    -- whatever comes next, a later word or the fraction, a blank stands before it
    obtain ⟨more, hmore⟩ : ∃ more, (later.flatMap fun word => ' ' :: word) ++
        ([' '] ++ (index ++ (['/'] ++ (total ++ rest)))) = ' ' :: more := by
      cases later with
      | nil => exact ⟨_, rfl⟩
      | cons next later => exact ⟨_, rfl⟩
    have hc' : c.ahead = [' '] ++ (word ++ ' ' :: more) := by
      rw [hc, ← hmore]
      simp
    have hnext : ∀ m, c.Reads ([' '] ++ (word ++ [])) m → m.ahead =
        (later.flatMap fun word => ' ' :: word) ++
          ([' '] ++ (index ++ (['/'] ++ (total ++ rest)))) := by
      intro m reads
      have hm := reads.ahead.symm.trans hc'
      rw [← hmore, ← List.append_assoc, List.append_nil] at hm
      exact List.append_cancel_left hm
    have hall := Prefers.lazy_more (fraction_refuses hc' hword (plain word List.mem_cons_self))
      (prefers_block hc' hword) (by simp) fun m reads =>
        ih (fun w hw => words w (List.mem_cons_of_mem word hw))
          (fun w hw => plain w (List.mem_cons_of_mem word hw)) (hnext m reads)
    simpa using hall

end Step

namespace Triple
variable (t : Triple u)

theorem step_endsInWord : EndsInWord t.step := t.total_number.isWord.endsInWord _

/-- The blanks are the only white space of a step. -/
theorem step_whitespace {c : Char} (hc : c ∈ t.step.toList) : isWhitespace c = false ∨ c = ' ' := by
  rw [step_toList] at hc
  simp only [List.mem_append, List.mem_flatMap, List.mem_cons, List.not_mem_nil, or_false] at hc
  rcases hc with hc | ⟨word, hword, rfl | hc⟩ | rfl | hc | rfl | hc
  · exact Or.inl (t.first_word.2 c hc)
  · exact Or.inr rfl
  · exact Or.inl ((t.later_words word hword).2 c hc)
  · exact Or.inr rfl
  · exact Or.inl (t.index_number.2 c hc)
  · exact Or.inl (by decide)
  · exact Or.inl (t.total_number.2 c hc)

theorem captured_step {tail : String} (htail : ∀ c ∈ tail.toList.head?, u.digit c = false) :
    capturedField (fieldStep u) (t.fields ++ (t.step ++ tail)) = some t.step := by
  have hahead : (t.step ++ tail).toList = t.first.toList ++
      ((t.later.flatMap fun word => ' ' :: word.toList) ++
        ([' '] ++ (t.index.toList ++ (['/'] ++ (t.total.toList ++ tail.toList))))) := by
    rw [String.toList_append, step_toList]
    simp
  have prefers : Prefers (stepBody u)
      ⟨"step=".toList.reverse ++ t.toHeader.beforeStep, (t.step ++ tail).toList, []⟩
      t.step.toList := by
    rw [t.step_toList]
    refine Prefers.concat_cons (prefers_plus_cls hahead t.first_word.1
      (by simpa using t.first_word.2) ?_) fun m reads => ?_
    · cases hlater : t.later with
      | nil => simp [isWhitespace]
      | cons word later => simp [isWhitespace]
    · have hm := List.append_cancel_left (reads.ahead.symm.trans hahead)
      rw [← List.flatMap_map (f := String.toList) (g := fun word => ' ' :: word)] at hm
      have hwords := prefers_words (List.forall_mem_map.mpr t.later_words)
        (List.forall_mem_map.mpr t.later_plain) t.index_number t.total_number htail hm
      rwa [List.flatMap_map] at hwords
  rw [step_of_prefers u t.toHeader prefers, String.ofList_toList]

end Triple

/-- Parsing gives back what the line was made of, whatever its tail says. -/
theorem parse_inverts_format (t : Triple u) (tail : String) (htail : IsTail tail) :
    parseLine u (t.text ++ t.step ++ tail) = .structured {
      level := Level.parse t.level
      source := t.source
      chain := some t.chain
      rid := some t.rid
      step := some t.step
      message := trimEnd (t.fields ++ t.step ++ tail)
      raw := t.text ++ t.step ++ tail } := by
  have hline : '\n' ∉ t.step.toList ++ tail.toList := by
    rw [List.mem_append]
    rintro (hmem | hmem)
    · rcases t.step_whitespace hmem with h | h
      · exact absurd h (by decide)
      · exact absurd h (by decide)
    · rcases htail with rfl | ⟨text, rfl, hclean⟩
      · cases hmem
      · simp [hclean] at hmem
  have hdigit : ∀ c ∈ (trimEnd tail).toList.head?, u.digit c = false := by
    intro c hc
    obtain ⟨more, hmore⟩ := List.rdropWhile_prefix isWhitespace tail.toList
    have hhead : c ∈ tail.toList.head? := by
      rw [trimEnd, String.toList_ofList] at hc
      rw [← hmore, List.head?_append, hc]
      rfl
    rw [htail.head c hhead]
    exact digit_blank
  rw [parseLine_header u t.toHeader t.step_endsInWord hline,
    trimEnd_append t.step_endsInWord, Header.event, String.append_assoc,
    t.captured_step hdigit]

theorem not_beginsWithFraction {c : Char} {w more : List Char} (hw : w = c :: more)
    (hc : u.digit c = false) : ¬ BeginsWithFraction u w := by
  rintro ⟨index, total, rest, hindex, _, hsplit⟩
  obtain ⟨d, index, rfl⟩ := List.exists_cons_of_ne_nil hindex.1
  obtain ⟨rfl, _⟩ := List.cons.inj (hw.symm.trans hsplit)
  rw [hindex.2 c List.mem_cons_self] at hc
  cases hc

def registrationTriple : Triple .ascii where
  time := "3:55:50 PM"
  level := "WARN"
  source := "security"
  chain := "registration"
  rid := "abc123"
  first := "POST"
  later := ["/api/register"]
  index := "5"
  total := "8"
  time_ne := by decide
  time_clean := List.all_eq_true.mp (by decide)
  level_ne := by decide
  level_letters := List.all_eq_true.mp (by decide)
  source_ne := by decide
  source_clean := List.all_eq_true.mp (by decide)
  chain_token := isToken_of_all (by decide) (by decide)
  rid_token := isToken_of_all (by decide) (by decide)
  first_word := isWord_of_all (by decide) (by decide)
  later_words := List.forall_mem_singleton.mpr (isWord_of_all (by decide) (by decide))
  later_plain := List.forall_mem_singleton.mpr (not_beginsWithFraction rfl (by decide))
  index_number := isNumber_of_all (by decide) (by decide)
  total_number := isNumber_of_all (by decide) (by decide)

/-- The tail repeats every key and has a fraction of its own. -/
theorem parse_inverts_format_forged :
    parseLine .ascii ("[3:55:50 PM] [WARN] [security] chain=registration rid=abc123 " ++
      "step=POST /api/register 5/8 REJECT chain=a rid=b step=c 1/2 ") = .structured {
      level := .warn
      source := "security"
      chain := some "registration"
      rid := some "abc123"
      step := some "POST /api/register 5/8"
      message := "chain=registration rid=abc123 " ++
        "step=POST /api/register 5/8 REJECT chain=a rid=b step=c 1/2"
      raw := "[3:55:50 PM] [WARN] [security] chain=registration rid=abc123 " ++
        "step=POST /api/register 5/8 REJECT chain=a rid=b step=c 1/2 " } :=
  parse_inverts_format registrationTriple " REJECT chain=a rid=b step=c 1/2 "
    (Or.inr ⟨"REJECT chain=a rid=b step=c 1/2 ", by decide, by decide⟩)

end Watchtower.Parse
