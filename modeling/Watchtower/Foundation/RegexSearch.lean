import Mathlib.Data.List.Infix
import Watchtower.Foundation.Regex

/-!
# What a pattern reads and where it is found

Forgetting the order of preference, a pattern without groups reads a language of
words. Forgetting nothing, a search that looks for a key passes over every text in
which the key does not begin, and a lazy repetition stops at the first place where
the rest of the pattern matches.
-/

namespace Watchtower.Regex

universe u v
variable {α : Type u} {ν : Type v}

open Pattern

namespace Cursor

theorem Reads.trans {c m d : Cursor α ν} {v w : List α} (first : c.Reads v m)
    (second : m.Reads w d) : c.Reads (v ++ w) d := by
  refine ⟨?_, ?_, second.caps.trans first.caps⟩
  · rw [first.ahead, second.ahead, List.append_assoc]
  · rw [second.behind, first.behind, List.reverse_append, List.append_assoc]

/-- A reading of two words in a row stops between them. -/
theorem Reads.split {c d : Cursor α ν} {v w : List α} (reads : c.Reads (v ++ w) d) :
    c.Reads v ⟨v.reverse ++ c.behind, w ++ d.ahead, c.caps⟩ ∧
      Reads ⟨v.reverse ++ c.behind, w ++ d.ahead, c.caps⟩ w d := by
  refine ⟨⟨?_, rfl, rfl⟩, rfl, ?_, reads.caps⟩
  · rw [reads.ahead, List.append_assoc]
  · rw [reads.behind, List.reverse_append, List.append_assoc]

theorem Reads.length_lt {c d : Cursor α ν} {w : List α} (reads : c.Reads w d) (hw : w ≠ []) :
    d.ahead.length < c.ahead.length := by
  have hlen := congrArg List.length reads.ahead
  have hpos := List.length_pos_of_ne_nil hw
  rw [List.length_append] at hlen
  omega

end Cursor

/-- The pattern matches by reading a word of the language, and captures nothing. -/
def Recognises (r : Pattern α ν) (L : List α → Prop) : Prop :=
  ∀ c d, d ∈ run r c ↔ ∃ w, L w ∧ c.Reads w d

section Languages
variable {r s : Pattern α ν} {rs : List (Pattern α ν)} {L M : List α → Prop}

theorem recognises_cls (p : α → Bool) :
    Recognises (.cls p : Pattern α ν) fun w => ∃ a, p a ∧ w = [a] := by
  rintro ⟨behind, ahead, caps⟩ d
  cases ahead with
  | nil =>
    rw [run_cls_nil]
    constructor
    · intro h
      cases h
    · rintro ⟨w, ⟨a, _, rfl⟩, reads⟩
      cases reads.ahead
  | cons b rest =>
    rw [run_cls_cons]
    constructor
    · intro h
      by_cases hb : p b
      · rw [if_pos hb] at h
        obtain rfl := List.mem_singleton.mp h
        exact ⟨[b], ⟨b, hb, rfl⟩, rfl, rfl, rfl⟩
      · rw [if_neg hb] at h
        cases h
    · rintro ⟨w, ⟨a, ha, rfl⟩, reads⟩
      obtain ⟨hhead, hrest⟩ := List.cons.inj reads.ahead
      obtain rfl : b = a := hhead
      rw [if_pos ha, List.mem_singleton]
      obtain ⟨behind', ahead', caps'⟩ := d
      obtain rfl : rest = ahead' := hrest
      have hbehind := reads.behind
      have hcaps := reads.caps
      simp only [List.reverse_singleton, List.singleton_append] at hbehind hcaps
      rw [hbehind, hcaps]

theorem recognises_concat_nil : Recognises (concat [] : Pattern α ν) fun w => w = [] := by
  intro c d
  rw [run_concat_nil, List.mem_singleton]
  constructor
  · intro h
    exact ⟨[], rfl, Cursor.Reads.nil_iff.mpr h⟩
  · rintro ⟨w, rfl, reads⟩
    exact Cursor.Reads.nil_iff.mp reads

theorem Recognises.seq (first : Recognises r L) (second : Recognises s M) :
    Recognises (.seq r s) fun w => ∃ x y, L x ∧ M y ∧ w = x ++ y := by
  intro c d
  rw [run_seq, List.mem_flatMap]
  constructor
  · rintro ⟨m, hm, hd⟩
    obtain ⟨x, hx, hread⟩ := (first c m).mp hm
    obtain ⟨y, hy, hread'⟩ := (second m d).mp hd
    exact ⟨x ++ y, ⟨x, y, hx, hy, rfl⟩, hread.trans hread'⟩
  · rintro ⟨w, ⟨x, y, hx, hy, rfl⟩, reads⟩
    exact ⟨_, (first c _).mpr ⟨x, hx, reads.split.1⟩, (second _ d).mpr ⟨y, hy, reads.split.2⟩⟩

theorem Recognises.concat_cons (first : Recognises r L) (rest : Recognises (concat rs) M) :
    Recognises (concat (r :: rs)) fun w => ∃ x y, L x ∧ M y ∧ w = x ++ y :=
  first.seq rest

/-- A repetition stops where it stands, or reads on and repeats. -/
theorem mem_run_star {greedy : Bool} {c d : Cursor α ν} : d ∈ run (.star greedy r) c ↔
    d = c ∨ ∃ m ∈ run r c, m.ahead.length < c.ahead.length ∧ d ∈ run (.star greedy r) m := by
  rw [run_star]
  have hagain : (d ∈ (run r c).flatMap fun m =>
      if m.ahead.length < c.ahead.length then run (.star greedy r) m else []) ↔
      ∃ m ∈ run r c, m.ahead.length < c.ahead.length ∧ d ∈ run (.star greedy r) m := by
    rw [List.mem_flatMap]
    refine exists_congr fun m => and_congr_right fun _ => ?_
    by_cases hlt : m.ahead.length < c.ahead.length
    · simp [hlt]
    · simp [hlt]
  cases greedy with
  | false => simp [hagain]
  | true => simp [hagain, or_comm]

/-- A repetition reads words of the language in a row. -/
theorem Recognises.star (body : Recognises r L) (nonempty : ∀ w, L w → w ≠ [])
    (greedy : Bool) : Recognises (.star greedy r) fun w =>
      ∃ ws : List (List α), (∀ x ∈ ws, L x) ∧ w = ws.flatten := by
  intro c d
  induction hn : c.ahead.length using Nat.strongRecOn generalizing c with
  | ind n ih =>
    subst hn
    rw [mem_run_star]
    constructor
    · rintro (rfl | ⟨m, hm, hlt, hd⟩)
      · exact ⟨[], ⟨[], by simp, rfl⟩, Cursor.Reads.nil_iff.mpr rfl⟩
      · obtain ⟨x, hx, hread⟩ := (body c m).mp hm
        obtain ⟨_, ⟨ws, hws, rfl⟩, hread'⟩ := (ih _ hlt m rfl).mp hd
        refine ⟨x ++ ws.flatten, ⟨x :: ws, ?_, rfl⟩, hread.trans hread'⟩
        intro y hy
        rcases List.mem_cons.mp hy with rfl | hy
        · exact hx
        · exact hws y hy
    · rintro ⟨_, ⟨ws, hws, rfl⟩, reads⟩
      cases ws with
      | nil => exact Or.inl (Cursor.Reads.nil_iff.mp reads)
      | cons x ws =>
        rw [List.flatten_cons] at reads
        have hx := hws x List.mem_cons_self
        have hlt := reads.split.1.length_lt (nonempty x hx)
        refine Or.inr ⟨_, (body c _).mpr ⟨x, hx, reads.split.1⟩, hlt, ?_⟩
        exact (ih _ hlt _ rfl).mpr
          ⟨_, ⟨ws, fun y hy => hws y (List.mem_cons_of_mem x hy), rfl⟩, reads.split.2⟩

end Languages

theorem Recognises.congr {r : Pattern α ν} {L M : List α → Prop} (h : Recognises r L)
    (same : ∀ w, L w ↔ M w) : Recognises r M := by
  intro c d
  rw [h c d]
  exact exists_congr fun w => and_congr_left fun _ => same w

theorem recognises_plus_cls (greedy : Bool) (p : α → Bool) :
    Recognises (plus greedy (.cls p) : Pattern α ν) fun w => w ≠ [] ∧ ∀ a ∈ w, p a := by
  have hstar : Recognises (.star greedy (.cls p) : Pattern α ν) fun w => ∀ a ∈ w, p a :=
    mem_run_star_cls greedy p
  refine ((recognises_cls p).seq hstar).congr fun w => ?_
  constructor
  · rintro ⟨_, y, ⟨a, ha, rfl⟩, hy, rfl⟩
    refine ⟨List.cons_ne_nil a y, fun b hb => ?_⟩
    rcases List.mem_cons.mp hb with rfl | hb
    · exact ha
    · exact hy b hb
  · rintro ⟨hne, hall⟩
    obtain ⟨a, y, rfl⟩ := List.exists_cons_of_ne_nil hne
    exact ⟨[a], y, ⟨a, hall a List.mem_cons_self, rfl⟩,
      fun b hb => hall b (List.mem_cons_of_mem a hb), rfl⟩

section Key
variable [BEq α] [LawfulBEq α]

theorem recognises_lit (y : α) : Recognises (lit y : Pattern α ν) fun w => w = [y] := by
  refine (recognises_cls (· == y)).congr fun w => ?_
  constructor
  · rintro ⟨a, ha, rfl⟩
    rw [eq_of_beq ha]
  · rintro rfl
    exact ⟨y, beq_self_eq_true y, rfl⟩

theorem recognises_lits (key : List α) :
    Recognises (concat (key.map lit) : Pattern α ν) fun w => w = key := by
  induction key with
  | nil => exact recognises_concat_nil
  | cons y key ih =>
    refine ((recognises_lit y).concat_cons ih).congr fun w => ?_
    simp

theorem run_lits (key behind rest : List α) (caps : List (ν × List α)) :
    run (concat (key.map lit)) ⟨behind, key ++ rest, caps⟩ =
      [⟨key.reverse ++ behind, rest, caps⟩] := by
  induction key generalizing behind with
  | nil => simp
  | cons y key ih => simp [lit, ih]

end Key

/-! Groups. -/

theorem capture_of_reads {c d : Cursor α ν} {w : List α} (reads : c.Reads w d) (name : ν) :
    Cursor.capture name c d = ⟨d.behind, d.ahead, (name, w) :: c.caps⟩ := by
  rw [Cursor.capture, reads.caps, reads.ahead]
  simp

theorem mem_run_group {r : Pattern α ν} {L : List α → Prop} (body : Recognises r L) {name : ν}
    {c d : Cursor α ν} (h : d ∈ run (.group name r) c) :
    ∃ w, L w ∧ c.ahead = w ++ d.ahead ∧ d.caps = (name, w) :: c.caps := by
  rw [run_group, List.mem_map] at h
  obtain ⟨m, hm, rfl⟩ := h
  obtain ⟨w, hw, reads⟩ := (body c m).mp hm
  rw [capture_of_reads reads]
  exact ⟨w, hw, reads.ahead, rfl⟩

/-- The preferred match of a greedy class takes all it can. -/
theorem run_plus_cls_head {p : α → Bool} {behind w rest : List α} {caps : List (ν × List α)}
    (hne : w ≠ []) (hw : ∀ a ∈ w, p a) (hrest : ∀ a ∈ rest.head?, p a = false) :
    ∃ others, run (plus true (.cls p)) ⟨behind, w ++ rest, caps⟩ =
      ⟨w.reverse ++ behind, rest, caps⟩ :: others := by
  obtain ⟨a, w, rfl⟩ := List.exists_cons_of_ne_nil hne
  have ha := hw a List.mem_cons_self
  have hall : ∀ b ∈ w, p b := fun b hb => hw b (List.mem_cons_of_mem a hb)
  have hskip : Cursor.skipWhile p (⟨a :: behind, w ++ rest, caps⟩ : Cursor α ν) =
      ⟨w.reverse ++ a :: behind, rest, caps⟩ := by
    cases rest with
    | nil =>
      have htake := List.takeWhile_eq_self_iff.mpr hall
      have hdrop := List.dropWhile_eq_nil_iff.mpr hall
      simp [Cursor.skipWhile, htake, hdrop]
    | cons y rest => exact skipWhile_append hall (hrest y rfl)
  obtain ⟨others, hrun, _⟩ := run_star_cls_head p (⟨a :: behind, w ++ rest, caps⟩ : Cursor α ν)
  refine ⟨others, ?_⟩
  rw [plus, run_seq, List.cons_append, run_cls_cons, if_pos ha, List.flatMap_singleton, hrun,
    hskip]
  simp

/-! Searching. -/

theorem search_nil (r : Pattern α ν) (behind : List α) :
    search r behind [] = (run r ⟨behind, [], []⟩).head? := by
  simp only [search]
  cases (run r ⟨behind, [], []⟩).head? <;> rfl

theorem search_cons (r : Pattern α ν) (behind : List α) (a : α) (text : List α) :
    search r behind (a :: text) =
      (run r ⟨behind, a :: text, []⟩).head?.or (search r (a :: behind) text) := by
  simp only [search]
  cases (run r ⟨behind, a :: text, []⟩).head? <;> rfl

theorem search_of_head {r : Pattern α ν} {behind text : List α} {d : Cursor α ν}
    (h : (run r ⟨behind, text, []⟩).head? = some d) : search r behind text = some d := by
  cases text with
  | nil => rw [search_nil, h]
  | cons a text => rw [search_cons, h, Option.some_or]

/-- A search passes over a text in which no match begins. -/
theorem search_skip {r : Pattern α ν} {behind text rest : List α}
    (misses : ∀ x a y, text = x ++ a :: y →
      run r ⟨x.reverse ++ behind, a :: (y ++ rest), []⟩ = []) :
    search r behind (text ++ rest) = search r (text.reverse ++ behind) rest := by
  induction text generalizing behind with
  | nil => rfl
  | cons a text ih =>
    have hhere : run r ⟨behind, a :: (text ++ rest), []⟩ = [] := misses [] a text rfl
    rw [List.cons_append, search_cons, hhere, List.head?_nil, Option.none_or, ih]
    · simp
    · rintro x b y rfl
      simpa using misses (a :: x) b y rfl

/-- A match that is found is a match at some position. -/
theorem mem_of_search {r : Pattern α ν} {behind text : List α} {d : Cursor α ν}
    (h : search r behind text = some d) :
    ∃ x y, text = x ++ y ∧ d ∈ run r ⟨x.reverse ++ behind, y, []⟩ := by
  induction text generalizing behind with
  | nil =>
    rw [search_nil] at h
    exact ⟨[], [], rfl, List.mem_of_head? h⟩
  | cons a text ih =>
    rw [search_cons] at h
    rcases Option.or_eq_some_iff.mp h with hhere | ⟨_, hlater⟩
    · exact ⟨[], a :: text, rfl, List.mem_of_head? hhere⟩
    · obtain ⟨x, y, rfl, hmem⟩ := ih hlater
      exact ⟨a :: x, y, rfl, by simpa using hmem⟩

/-! Fields: a key at a word boundary, and a group behind it. -/

/-- The key does not begin inside the text, whatever part of what follows it would need. -/
def Clear (key text rest : List α) : Prop :=
  ∀ x a y, text = x ++ a :: y → ¬ key <+: a :: (y ++ rest)

theorem Clear.append {key text more rest : List α} (first : Clear key text (more ++ rest))
    (second : Clear key more rest) : Clear key (text ++ more) rest := by
  intro x a y heq
  rcases List.append_eq_append_iff.mp heq with ⟨z, rfl, hmore⟩ | ⟨z, rfl, hz⟩
  · exact second z a y hmore
  · cases z with
    | nil => exact second [] a y hz.symm
    | cons b z =>
      obtain ⟨rfl, rfl⟩ := List.cons.inj hz
      simpa using first x a z rfl

theorem clear_of_head {k : α} {key text : List α} (hk : k ∉ text) (rest : List α) :
    Clear (k :: key) text rest := by
  rintro x a y rfl ⟨z, hz⟩
  obtain rfl := (List.cons.inj hz).1
  exact hk (by simp)

/-- A text without a character of the key, followed by one that the key has not. -/
theorem clear_of_stop {key text : List α} {e stop : α} (he : e ∈ key) (htext : e ∉ text)
    (hstop : stop ∉ key) (rest : List α) : Clear key text (stop :: rest) := by
  rintro x a y rfl ⟨z, hz⟩
  rw [← List.cons_append, List.append_eq_append_iff] at hz
  rcases hz with ⟨w, hw, _⟩ | ⟨w, hw, hw'⟩
  · refine htext (List.mem_append_right x ?_)
    rw [hw]
    exact List.mem_append_left w he
  · cases w with
    | nil =>
      rw [List.append_nil] at hw
      exact htext (List.mem_append_right x (hw ▸ he))
    | cons b w =>
      obtain ⟨rfl, _⟩ := List.cons.inj hw'
      exact hstop (hw ▸ List.mem_append_right _ List.mem_cons_self)

section Field
variable [BEq α] [LawfulBEq α] {word : α → Bool} {key : List α} {r : Pattern α ν}

/-- A field, as a pattern. -/
def field (word : α → Bool) (key : List α) (r : Pattern α ν) : Pattern α ν :=
  concat [boundary word, concat (key.map lit), r]

theorem mem_run_field {c d : Cursor α ν} (h : d ∈ run (field word key r) c) :
    ∃ m, c.Reads key m ∧ d ∈ run r m := by
  rw [field, run_concat_cons, boundary, run_look, List.mem_flatMap] at h
  obtain ⟨c', hc, h⟩ := h
  split at hc
  · obtain rfl := List.mem_singleton.mp hc
    rw [run_concat_cons, List.mem_flatMap] at h
    obtain ⟨m, hm, h⟩ := h
    obtain ⟨_, rfl, reads⟩ := (recognises_lits key c' m).mp hm
    refine ⟨m, reads, ?_⟩
    simpa using h
  · cases hc

theorem run_field_of_not_prefix {behind ahead : List α} {caps : List (ν × List α)}
    (h : ¬ key <+: ahead) : run (field word key r) ⟨behind, ahead, caps⟩ = [] := by
  rw [List.eq_nil_iff_forall_not_mem]
  intro d hd
  obtain ⟨m, reads, _⟩ := mem_run_field hd
  exact h ⟨m.ahead, reads.ahead.symm⟩

theorem search_field_skip {behind text rest : List α} (clear : Clear key text rest) :
    search (field word key r) behind (text ++ rest) =
      search (field word key r) (text.reverse ++ behind) rest :=
  search_skip fun x a y heq => run_field_of_not_prefix (clear x a y heq)

theorem run_field {behind rest : List α} {caps : List (ν × List α)}
    (hbound : (behind.head?.any word != (key ++ rest).head?.any word) = true) :
    run (field word key r) ⟨behind, key ++ rest, caps⟩ =
      run r ⟨key.reverse ++ behind, rest, caps⟩ := by
  have hlast : run (concat ([] : List (Pattern α ν))) = fun c => [c] := funext run_concat_nil
  rw [field, run_concat_cons, boundary, run_look, if_pos hbound, List.flatMap_singleton,
    run_concat_cons, run_lits, List.flatMap_singleton, run_concat_cons, hlast,
    List.flatMap_singleton']

end Field

/-! The order of preference. -/

/-- The preferred way to match the pattern at the cursor reads the word. -/
def Prefers (r : Pattern α ν) (c : Cursor α ν) (w : List α) : Prop :=
  ∃ d others, run r c = d :: others ∧ c.Reads w d

theorem prefers_concat_nil (c : Cursor α ν) : Prefers (concat []) c [] :=
  ⟨c, [], run_concat_nil c, Cursor.Reads.nil_iff.mpr rfl⟩

theorem prefers_lit [BEq α] [LawfulBEq α] {y : α} {rest : List α} {c : Cursor α ν}
    (hc : c.ahead = y :: rest) : Prefers (lit y) c [y] := by
  obtain ⟨behind, ahead, caps⟩ := c
  subst hc
  refine ⟨⟨y :: behind, rest, caps⟩, [], ?_, ⟨rfl, rfl, rfl⟩⟩
  rw [lit, run_cls_cons, if_pos (beq_self_eq_true y)]

/-- A greedy class takes all it can. -/
theorem prefers_plus_cls {p : α → Bool} {w rest : List α} {c : Cursor α ν}
    (hc : c.ahead = w ++ rest) (hne : w ≠ []) (hw : ∀ a ∈ w, p a)
    (hrest : ∀ a ∈ rest.head?, p a = false) : Prefers (plus true (.cls p)) c w := by
  obtain ⟨behind, ahead, caps⟩ := c
  subst hc
  obtain ⟨others, hrun⟩ : ∃ others, run (plus true (.cls p)) ⟨behind, w ++ rest, caps⟩ =
      ⟨w.reverse ++ behind, rest, caps⟩ :: others := run_plus_cls_head hne hw hrest
  exact ⟨_, others, hrun, ⟨rfl, rfl, rfl⟩⟩

theorem Prefers.concat_cons {r : Pattern α ν} {rs : List (Pattern α ν)} {c : Cursor α ν}
    {v w : List α} (first : Prefers r c v)
    (rest : ∀ m, c.Reads v m → Prefers (concat rs) m w) :
    Prefers (concat (r :: rs)) c (v ++ w) := by
  obtain ⟨m, others, hrun, reads⟩ := first
  obtain ⟨d, more, hrest, reads'⟩ := rest m reads
  refine ⟨d, more ++ others.flatMap (run (concat rs)), ?_, reads.trans reads'⟩
  rw [run_concat_cons, hrun, List.flatMap_cons, hrest, List.cons_append]

/-- A lazy repetition stops where the rest of the pattern matches. -/
theorem Prefers.lazy_stop {r : Pattern α ν} {rs : List (Pattern α ν)} {c : Cursor α ν}
    {w : List α} (rest : Prefers (concat rs) c w) :
    Prefers (concat (.star false r :: rs)) c w := by
  obtain ⟨d, more, hrun, reads⟩ := rest
  rw [Prefers, run_concat_cons, run_star]
  simp only [Bool.false_eq_true, if_false, List.flatMap_cons, hrun, List.cons_append]
  exact ⟨d, _, rfl, reads⟩

/-- Where the rest of the pattern does not match, it goes on. -/
theorem Prefers.lazy_more {r : Pattern α ν} {rs : List (Pattern α ν)} {c : Cursor α ν}
    {v w : List α} (refuses : run (concat rs) c = []) (body : Prefers r c v) (hne : v ≠ [])
    (rest : ∀ m, c.Reads v m → Prefers (concat (.star false r :: rs)) m w) :
    Prefers (concat (.star false r :: rs)) c (v ++ w) := by
  obtain ⟨m, others, hrun, reads⟩ := body
  obtain ⟨d, more, hrest, reads'⟩ := rest m reads
  rw [run_concat_cons] at hrest
  rw [Prefers, run_concat_cons, run_star]
  simp only [Bool.false_eq_true, if_false, List.flatMap_cons, refuses, List.nil_append, hrun,
    List.flatMap_append, if_pos (reads.length_lt hne), hrest, List.cons_append]
  exact ⟨d, _, rfl, reads.trans reads'⟩

/-- Where a pattern matches at all, it prefers some match. -/
theorem Recognises.prefers {r : Pattern α ν} {L : List α → Prop} (recognises : Recognises r L)
    {c : Cursor α ν} {w rest : List α} (hc : c.ahead = w ++ rest) (hw : L w) :
    ∃ v, L v ∧ Prefers r c v := by
  have hmem : (⟨w.reverse ++ c.behind, rest, c.caps⟩ : Cursor α ν) ∈ run r c :=
    (recognises c _).mpr ⟨w, hw, hc, rfl, rfl⟩
  obtain ⟨d, others, hrun⟩ := List.exists_cons_of_ne_nil (List.ne_nil_of_mem hmem)
  obtain ⟨v, hv, reads⟩ := (recognises c d).mp (hrun ▸ List.mem_cons_self)
  exact ⟨v, hv, d, others, hrun, reads⟩

/-- What a field captures where its key stands. -/
theorem search_field [BEq α] [LawfulBEq α] [BEq ν] [LawfulBEq ν] {word : α → Bool}
    {key behind rest w : List α} {r : Pattern α ν} {name : ν}
    (hbound : (behind.head?.any word != (key ++ rest).head?.any word) = true)
    (prefers : Prefers r ⟨key.reverse ++ behind, rest, []⟩ w) :
    (search (field word key (.group name r)) behind (key ++ rest)).bind (·.named name) =
      some w := by
  obtain ⟨d, others, hrun, reads⟩ := prefers
  have hhead : (run (field word key (.group name r)) ⟨behind, key ++ rest, []⟩).head? =
      some ⟨d.behind, d.ahead, [(name, w)]⟩ := by
    rw [run_field hbound, run_group, hrun, List.map_cons, List.head?_cons,
      capture_of_reads reads]
  rw [search_of_head hhead, Option.bind_some, Cursor.named, List.lookup_cons_self]

end Watchtower.Regex
