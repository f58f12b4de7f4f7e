import Watchtower.Foundation.Preference
import Watchtower.Foundation.Text
import Watchtower.TripleFormat

/-!
# What `parse_line` computes

The fields of an event, said of the text alone. A key counts where it begins a word. Behind
the first `chain=` and `rid=` the value goes as far as it can, behind the first `step=`
only as far as it must, up to a fraction, whose last number is read to its end.
-/

namespace Watchtower.Parse

open Regex Regex.Pattern Text

/-- A token is taken as far as it goes. -/
def TakesToken (rest v : List Char) : Prop := v ≠ [] ∧ v = rest.takeWhile fieldChar

variable (u : UnicodeClasses)

/-- Of the words the text begins with, the shortest, with the digits it ends in. -/
structure Shortest (Is : List Char → Prop) (rest v : List Char) : Prop where
  is : Is v
  goes_on : ∃ tail, rest = v ++ tail ∧ ∀ c ∈ tail.head?, u.digit c = false
  shortest : ∀ w, Is w → w <+: rest →
    v <+: w ∨ ∃ digits, v = w ++ digits ∧ ∀ c ∈ digits, u.digit c = true

def TakesStep : List Char → List Char → Prop := Shortest u (IsStep u)

section Shortest
variable {u} {Is Tail : List Char → Prop} {rest v v' : List Char}

/-- A word that goes on in no digit is not continued by digits. -/
theorem Shortest.le_of_digits (h : Shortest u Is rest v) (begins : v' <+: rest)
    {digits : List Char} (more : v' = v ++ digits) (all : ∀ c ∈ digits, u.digit c = true) :
    v' = v := by
  obtain ⟨tail, hrest, hstop⟩ := h.goes_on
  obtain ⟨tail', hrest'⟩ := begins
  rw [hrest, more, List.append_assoc, List.append_cancel_left_eq] at hrest'
  cases digits with
  | nil => rw [more, List.append_nil]
  | cons c digits =>
    have hdigit := all c List.mem_cons_self
    rw [hstop c (by rw [← hrest']; rfl)] at hdigit
    cases hdigit

theorem Shortest.unique (h : Shortest u Is rest v) (h' : Shortest u Is rest v') : v = v' := by
  obtain ⟨tail, hrest, _⟩ := h.goes_on
  obtain ⟨tail', hrest', _⟩ := h'.goes_on
  have hv : v <+: rest := ⟨tail, hrest.symm⟩
  have hv' : v' <+: rest := ⟨tail', hrest'.symm⟩
  rcases h.shortest v' h'.is hv' with hle | ⟨digits, hmore, hall⟩
  · rcases h'.shortest v h.is hv with hle' | ⟨digits, hmore, hall⟩
    · exact hle.eq_of_length_le hle'.length_le
    · exact (h.le_of_digits hv' hmore hall).symm
  · exact h'.le_of_digits hv hmore hall

/-- A part that every word has to begin with is put in front. -/
theorem Shortest.append {x : List Char} (h : Shortest u Tail rest v) (is : Is (x ++ v))
    (split : ∀ w, Is w → w <+: x ++ rest → ∃ y, w = x ++ y ∧ Tail y) :
    Shortest u Is (x ++ rest) (x ++ v) where
  is := is
  goes_on := by
    obtain ⟨tail, hrest, hstop⟩ := h.goes_on
    exact ⟨tail, by rw [hrest, List.append_assoc], hstop⟩
  shortest w hw begins := by
    obtain ⟨y, rfl, hy⟩ := split w hw begins
    rcases h.shortest y hy ((List.prefix_append_right_inj x).mp begins) with hle | ⟨ds, rfl, hds⟩
    · exact .inl ((List.prefix_append_right_inj x).mpr hle)
    · exact .inr ⟨ds, (List.append_assoc ..).symm, hds⟩

end Shortest

section Step

/-- What stands behind the first word of a step. -/
def IsStepTail (w : List Char) : Prop :=
  ∃ fraction, ∃ blocks : List (List Char), (∀ block ∈ blocks, IsBlock block) ∧
    IsFraction u fraction ∧ w = blocks.flatten ++ fraction

variable {u}

theorem IsGap.head_append {gap : List Char} (h : IsGap gap) (rest : List Char) :
    ∀ c ∈ (gap ++ rest).head?, isWhitespace c = true := by
  obtain ⟨c, gap, rfl⟩ := List.exists_cons_of_ne_nil h.1
  rintro a ⟨⟩
  exact h.2 c List.mem_cons_self

theorem IsStepTail.head_append {w : List Char} (h : IsStepTail u w) (rest : List Char) :
    ∀ c ∈ (w ++ rest).head?, isWhitespace c = true := by
  obtain ⟨_, blocks, hblocks, ⟨gap, index, total, hgap, _, _, rfl⟩, rfl⟩ := h
  cases blocks with
  | nil =>
    rw [List.flatten_nil, List.nil_append, List.append_assoc]
    exact hgap.head_append _
  | cons block blocks =>
    obtain ⟨gap', word, hgap', _, rfl⟩ := hblocks block List.mem_cons_self
    simp only [List.flatten_cons, List.append_assoc]
    exact hgap'.head_append _

theorem slash_not_gap {gap : List Char} (h : IsGap gap) : '/' ∉ gap := fun mem =>
  absurd (h.2 '/' mem) (by decide)

theorem slash_not_digits {digits : List Char} (h : ∀ c ∈ digits, u.digit c = true) :
    '/' ∉ digits := fun mem =>
  absurd (h '/' mem) (by simp [digit_slash])

theorem recognises_digits (u : UnicodeClasses) :
    Recognises (plus true (.cls u.digit) : Pattern Char String) (IsDigits u) :=
  recognises_plus_cls true u.digit

/-- The preferred fraction has one slash, and no digit stands behind it. -/
theorem fraction_of_prefers {c : Cursor Char String} {v : List Char}
    (prefers : Prefers (concat (fractionParts u)) c v) :
    (∃ front total, v = front ++ '/' :: total ∧ '/' ∉ front ∧ ∀ x ∈ total, u.digit x = true) ∧
      ∃ tail, c.ahead = v ++ tail ∧ ∀ x ∈ tail.head?, u.digit x = false := by
  have hgap : Recognises spaces IsGap := recognises_plus_cls true isWhitespace
  have hlast := (recognises_digits u).concat_cons recognises_concat_nil
  have hslash := (recognises_lit '/').concat_cons hlast
  have hnumbers := (recognises_digits u).concat_cons hslash
  obtain ⟨gap, _, c₁, hg, read₁, prefers₁, rfl⟩ := prefers.split hgap hnumbers
  obtain ⟨index, _, c₂, hi, read₂, prefers₂, rfl⟩ :=
    prefers₁.split (recognises_digits u) hslash
  obtain ⟨_, total, c₃, rfl, read₃, prefers₃, rfl⟩ := prefers₂.split (recognises_lit '/') hlast
  obtain ⟨_, htotal⟩ := prefers_plus_cls_iff.mp (prefers_concat_singleton.mp prefers₃)
  refine ⟨⟨gap ++ index, total, by simp, ?_, ?_⟩, c₃.ahead.dropWhile u.digit, ?_, ?_⟩
  · exact List.not_mem_append (slash_not_gap hg) (slash_not_digits hi.2)
  · rw [htotal]
    exact fun x hx => List.mem_takeWhile_imp hx
  · rw [read₁.ahead, read₂.ahead, read₃.ahead, htotal]
    simp
  · intro x hx
    have hhead := List.head?_dropWhile_not u.digit c₃.ahead
    rw [Option.mem_def.mp hx] at hhead
    simpa using hhead

/-- Whatever ends in the only fraction of a text lacks nothing but digits of it. -/
theorem digits_of_slash {front total w : List Char} (clean : '/' ∉ front)
    (digits : ∀ c ∈ total, u.digit c = true) (slash : '/' ∈ w)
    (begins : w <+: front ++ '/' :: total) :
    ∃ more, front ++ '/' :: total = w ++ more ∧ ∀ c ∈ more, u.digit c = true := by
  obtain ⟨more, hmore⟩ := begins
  obtain ⟨a, b, rfl, ha⟩ := List.eq_append_cons_of_mem slash
  rw [List.append_assoc, List.cons_append] at hmore
  obtain ⟨_, rfl⟩ := append_separator_inj ha clean hmore
  refine ⟨more, ?_, fun c hc => digits c (List.mem_append_right b hc)⟩
  rw [← hmore, List.append_assoc, List.cons_append]

theorem IsStepTail.slash {w : List Char} (h : IsStepTail u w) : '/' ∈ w := by
  obtain ⟨_, blocks, _, ⟨gap, index, total, _, _, _, rfl⟩, rfl⟩ := h
  simp

theorem IsBlock.ne_nil {block : List Char} (h : IsBlock block) : block ≠ [] := by
  obtain ⟨gap, word, hgap, _, rfl⟩ := h
  exact fun hnil => hgap.1 (List.append_eq_nil_iff.mp hnil).1

/-- A text has at most one block in front of a part that begins with white space. -/
theorem block_inj {block block' us vs : List Char} (h : IsBlock block) (h' : IsBlock block')
    (hus : ∀ c ∈ us.head?, isWhitespace c = true) (hvs : ∀ c ∈ vs.head?, isWhitespace c = true)
    (same : block ++ us = block' ++ vs) : block = block' ∧ us = vs := by
  obtain ⟨gap, word, hgap, hword, rfl⟩ := h
  obtain ⟨gap', word', hgap', hword', rfl⟩ := h'
  rw [List.append_assoc, List.append_assoc] at same
  obtain ⟨rfl, hrest⟩ := run_inj hgap.2 hgap'.2 (hword.head us) (hword'.head vs) same
  obtain ⟨rfl, htail⟩ := run_inj (p := fun c => !isWhitespace c) (by simpa using hword.2)
    (by simpa using hword'.2) (by simpa using hus) (by simpa using hvs) hrest
  exact ⟨rfl, htail⟩

theorem shortest_of_fraction {c : Cursor Char String} {v : List Char}
    (prefers : Prefers (concat (fractionParts u)) c v) : Shortest u (IsStepTail u) c.ahead v := by
  obtain ⟨hfraction, hbegins⟩ := (recognises_fraction u).of_prefers prefers
  obtain ⟨⟨front, total, hv, hclean, hdigits⟩, hstop⟩ := fraction_of_prefers prefers
  refine ⟨⟨v, [], by simp, hfraction, rfl⟩, hstop, fun w hw begins => ?_⟩
  rcases List.prefix_or_prefix_of_prefix hbegins begins with hle | hge
  · exact .inl hle
  · rw [hv] at hge ⊢
    exact .inr (digits_of_slash hclean hdigits hw.slash hge)

/-- Where no fraction can be read, a block comes first in all that can be. -/
theorem exists_of_no_fraction {c : Cursor Char String} {x rest w : List Char}
    (none : run (concat (fractionParts u)) c = []) (ahead : c.ahead = x ++ rest) (hx : IsBlock x)
    (hrest : ∀ a ∈ rest.head?, isWhitespace a = true) (hw : IsStepTail u w)
    (begins : w <+: x ++ rest) : ∃ y, w = x ++ y ∧ IsStepTail u y := by
  obtain ⟨more, hmore⟩ := begins
  obtain ⟨last, blocks, hblocks, hlast, rfl⟩ := hw
  cases blocks with
  | nil =>
    have hmem : (⟨last.reverse ++ c.behind, more, c.caps⟩ : Cursor Char String) ∈
        run (concat (fractionParts u)) c :=
      (recognises_fraction u c _).mpr ⟨last, hlast, ahead.trans hmore.symm, rfl, rfl⟩
    rw [none] at hmem
    cases hmem
  | cons block blocks =>
    obtain ⟨hblock, hothers⟩ := List.forall_mem_cons.mp hblocks
    have htail : IsStepTail u (blocks.flatten ++ last) := ⟨last, blocks, hothers, hlast, rfl⟩
    rw [List.flatten_cons, List.append_assoc, List.append_assoc] at hmore
    have hhead := htail.head_append more
    rw [List.append_assoc] at hhead
    obtain ⟨rfl, _⟩ := block_inj hblock hx hhead hrest hmore
    exact ⟨_, by rw [List.flatten_cons, List.append_assoc], htail⟩

/-- The lazy repetition reads as few blocks as it can. -/
theorem shortest_of_tail {c : Cursor Char String} {v : List Char}
    (prefers : Prefers (concat (.star false (concat [spaces,
      plus true (.cls fun c => !isWhitespace c)]) :: fractionParts u)) c v) :
    Shortest u (IsStepTail u) c.ahead v := by
  induction hn : c.ahead.length using Nat.strongRecOn generalizing c v with
  | ind n ih =>
    subst hn
    rcases prefers.lazy recognises_block (recognises_fraction u) fun _ => IsBlock.ne_nil with
      hstop | ⟨hnone, x, y, m, hx, reads, hgo, rfl⟩
    · exact shortest_of_fraction hstop
    · have hrest := ih _ (reads.length_lt hx.ne_nil) hgo rfl
      obtain ⟨last, blocks, hblocks, hlast, hy⟩ := hrest.is
      obtain ⟨tail, hahead, _⟩ := hrest.goes_on
      have hhead : ∀ a ∈ m.ahead.head?, isWhitespace a = true := by
        rw [hahead]
        exact hrest.is.head_append tail
      rw [reads.ahead]
      refine hrest.append ⟨last, x :: blocks, ?_, hlast, ?_⟩ fun w hw begins => ?_
      · exact List.forall_mem_cons.mpr ⟨hx, hblocks⟩
      · rw [hy, List.flatten_cons, List.append_assoc]
      · exact exists_of_no_fraction hnone reads.ahead hx hhead hw begins

theorem shortest_of_step {c : Cursor Char String} {v : List Char}
    (prefers : Prefers (stepBody u) c v) : TakesStep u c.ahead v := by
  have hblocks := recognises_block.star (fun _ => IsBlock.ne_nil) false
  obtain ⟨first, y, m, hfirst, reads, htail, rfl⟩ :=
    prefers.split recognises_word (hblocks.concat_cons (recognises_fraction u))
  have hrest := shortest_of_tail htail
  obtain ⟨last, blocks, hall, hlast, hy⟩ := hrest.is
  obtain ⟨tail, hahead, _⟩ := hrest.goes_on
  have hhead := hrest.is.head_append tail
  rw [← hahead] at hhead
  rw [reads.ahead]
  refine hrest.append ⟨first, last, blocks, hfirst, hall, hlast, by rw [hy]⟩ ?_
  rintro w ⟨first', last', blocks', hfirst', hall', hlast', rfl⟩ ⟨more, hmore⟩
  have htail' : IsStepTail u (blocks'.flatten ++ last') := ⟨last', blocks', hall', hlast', rfl⟩
  have hhead' := htail'.head_append more
  rw [List.append_assoc] at hmore
  obtain ⟨rfl, _⟩ := run_inj (p := fun c => !isWhitespace c) (by simpa using hfirst'.2)
    (by simpa using hfirst.2) (by simpa using hhead') (by simpa using hhead) hmore
  exact ⟨_, rfl, htail'⟩

theorem prefers_step_iff {c : Cursor Char String} {v : List Char} :
    Prefers (stepBody u) c v ↔ TakesStep u c.ahead v := by
  constructor
  · exact shortest_of_step
  · intro takes
    obtain ⟨tail, hahead, _⟩ := takes.goes_on
    obtain ⟨w, _, prefers⟩ := (recognises_step u).prefers hahead takes.is
    rw [takes.unique (shortest_of_step prefers)]
    exact prefers

end Step

theorem capturedField_iff {key : String} {body : Pattern Char String} {L : List Char → Prop}
    {takes : List Char → List Char → Prop} (recognises : Recognises body L)
    (prefers : ∀ c v, Prefers body c v ↔ takes c.ahead v)
    (begins : key.toList.head?.any u.word = true) {rest v : String} :
    capturedField (field u.word key.toList (.group "v" body)) rest = some v ↔
      FirstField u.word key.toList takes rest.toList v.toList := by
  rw [← named_search_iff "v" begins prefers recognises, capturedField,
    Option.map_eq_some_iff]
  constructor
  · rintro ⟨w, hw, rfl⟩
    rw [String.toList_ofList]
    exact hw
  · intro h
    exact ⟨v.toList, h, String.ofList_toList⟩

/-- What the event of a line is: the parts of its prefix, and the first fields behind it. -/
structure EventOf (line : String) (e : StructuredEvent) : Prop where
  parts : ∃ time level source tail, HasPrefix (trim line).toList time level source tail ∧
    '\n' ∉ remaining tail ∧ e.level = Level.parse (String.ofList level) ∧
    e.source = String.ofList source ∧ e.message = String.ofList (remaining tail)
  chain : ∀ v, e.chain = some v ↔
    FirstField u.word "chain=".toList TakesToken e.message.toList v.toList
  rid : ∀ v, e.rid = some v ↔
    FirstField u.word "rid=".toList TakesToken e.message.toList v.toList
  step : ∀ v, e.step = some v ↔
    FirstField u.word "step=".toList (TakesStep u) e.message.toList v.toList
  raw : e.raw = line

theorem fieldChain_iff {rest v : String} : capturedField (fieldChain u) rest = some v ↔
    FirstField u.word "chain=".toList TakesToken rest.toList v.toList := by
  have hbegins : "chain=".toList.head?.any u.word = true := by
    simp [word_of_ascii u (c := 'c') (by decide) (by decide)]
  exact capturedField_iff u (recognises_plus_cls true fieldChar)
    (fun _ _ => prefers_plus_cls_iff) hbegins

theorem fieldRid_iff {rest v : String} : capturedField (fieldRid u) rest = some v ↔
    FirstField u.word "rid=".toList TakesToken rest.toList v.toList := by
  have hbegins : "rid=".toList.head?.any u.word = true := by
    simp [word_of_ascii u (c := 'r') (by decide) (by decide)]
  exact capturedField_iff u (recognises_plus_cls true fieldChar)
    (fun _ _ => prefers_plus_cls_iff) hbegins

theorem fieldStep_iff {rest v : String} : capturedField (fieldStep u) rest = some v ↔
    FirstField u.word "step=".toList (TakesStep u) rest.toList v.toList := by
  have hbegins : "step=".toList.head?.any u.word = true := by
    simp [word_of_ascii u (c := 's') (by decide) (by decide)]
  exact capturedField_iff u (recognises_step u) (fun _ _ => prefers_step_iff) hbegins

/-- A line is structured with the event that its text describes, and with no other. -/
theorem parseLine_eq_structured_iff (line : String) (e : StructuredEvent) :
    parseLine u line = .structured e ↔ EventOf u line e := by
  constructor
  · intro h
    obtain ⟨time, level, source, tail, hprefix⟩ := prefix_of_structured u h
    rw [parseLine_prefixed u hprefix] at h
    split at h
    · next hall =>
      obtain rfl := LogEvent.structured.inj h
      refine ⟨⟨time, level, source, tail, hprefix, ?_, rfl, rfl, rfl⟩,
        fun v => fieldChain_iff u, fun v => fieldRid_iff u, fun v => fieldStep_iff u, rfl⟩
      exact fun mem => absurd (List.all_eq_true.mp hall _ mem) (by decide)
    · cases h
  · rintro ⟨⟨time, level, source, tail, hprefix, hline, hlevel, hsource, hmessage⟩, hchain, hrid,
      hstep, hraw⟩
    have hall : (remaining tail).all notNewline = true := by
      rw [List.all_eq_true]
      intro c mem
      rw [notNewline, bne_iff_ne]
      rintro rfl
      exact hline mem
    rw [parseLine_prefixed u hprefix, if_pos hall, LogEvent.structured.injEq]
    obtain ⟨elevel, esource, echain, erid, estep, emessage, eraw⟩ := e
    simp only at hlevel hsource hmessage hchain hrid hstep hraw
    subst hlevel hsource hmessage hraw
    have hc := Option.ext fun v => (fieldChain_iff u).trans (hchain v).symm
    have hr := Option.ext fun v => (fieldRid_iff u).trans (hrid v).symm
    have hs := Option.ext fun v => (fieldStep_iff u).trans (hstep v).symm
    rw [prefixEvent, hc, hr, hs]

end Watchtower.Parse
