import Mathlib.Data.List.Basic
import Mathlib.Data.List.TakeWhile

/-!
# Leftmost-first regular expressions with captures

A pattern is matched by backtracking: `run` lists every way it can match at a
cursor, in order of preference, and `captures` takes the first one at the
leftmost position that has any. Greedy and lazy repetition differ only in that
order. An iteration that consumes nothing is not taken, so a repetition is
bounded by the text that is left; the bound is never the reason to stop.
-/

namespace Watchtower.Regex

universe u v w
variable {α : Type u} {ν : Type v} {β : Type w}

/-- Where the matcher stands: the text behind it, nearest first, the text ahead,
and what the named groups have captured, latest first. -/
structure Cursor (α : Type u) (ν : Type v) where
  behind : List α
  ahead : List α
  caps : List (ν × List α)

inductive Pattern (α : Type u) (ν : Type v) where
  | cls (p : α → Bool)
  | look (p : List α → List α → Bool)
  | seq (r s : Pattern α ν)
  | star (greedy : Bool) (r : Pattern α ν)
  | group (name : ν) (r : Pattern α ν)

namespace Pattern

/-- The beginning of the text. -/
def start : Pattern α ν := .look fun behind _ => behind.isEmpty

/-- The end of the text. -/
def finish : Pattern α ν := .look fun _ ahead => ahead.isEmpty

/-- A boundary between a character of the class and one outside it. -/
def boundary (word : α → Bool) : Pattern α ν :=
  .look fun behind ahead => behind.head?.any word != ahead.head?.any word

def lit [BEq α] (a : α) : Pattern α ν := .cls (· == a)

def plus (greedy : Bool) (r : Pattern α ν) : Pattern α ν := .seq r (.star greedy r)

/-- The patterns one after the other. -/
def concat (rs : List (Pattern α ν)) : Pattern α ν :=
  rs.foldr .seq (.look fun _ _ => true)

end Pattern

namespace Cursor

/-- The cursor once the next characters of the class are behind it. -/
def skipWhile (p : α → Bool) (c : Cursor α ν) : Cursor α ν :=
  ⟨(c.ahead.takeWhile p).reverse ++ c.behind, c.ahead.dropWhile p, c.caps⟩

/-- Record the text between two positions under a name. -/
def capture (name : ν) (c d : Cursor α ν) : Cursor α ν :=
  ⟨d.behind, d.ahead, (name, c.ahead.take (c.ahead.length - d.ahead.length)) :: d.caps⟩

/-- Reading `w` leads from one cursor to the other and captures nothing. -/
structure Reads (c : Cursor α ν) (w : List α) (d : Cursor α ν) : Prop where
  ahead : c.ahead = w ++ d.ahead
  behind : d.behind = w.reverse ++ c.behind
  caps : d.caps = c.caps

theorem Reads.nil_iff {c d : Cursor α ν} : c.Reads [] d ↔ d = c := by
  constructor
  · rintro ⟨hahead, hbehind, hcaps⟩
    obtain ⟨behind, ahead, caps⟩ := d
    obtain ⟨behind', ahead', caps'⟩ := c
    simp only [List.nil_append, List.reverse_nil] at hahead hbehind hcaps
    subst hahead hbehind hcaps
    rfl
  · rintro rfl
    exact ⟨rfl, rfl, rfl⟩

def named [BEq ν] (name : ν) (c : Cursor α ν) : Option (List α) := c.caps.lookup name

end Cursor

/-- Repeat a body that consumes, up to the bound, in order of preference. -/
def iterate (body : Cursor α ν → List (Cursor α ν)) (greedy : Bool) :
    Nat → Cursor α ν → List (Cursor α ν)
  | 0, c => [c]
  | bound + 1, c =>
    let again := (body c).flatMap fun d =>
      if d.ahead.length < c.ahead.length then iterate body greedy bound d else []
    if greedy then again ++ [c] else c :: again

/-- Every way to match the pattern at the cursor, the preferred way first. -/
def run : Pattern α ν → Cursor α ν → List (Cursor α ν)
  | .cls p, ⟨behind, ahead, caps⟩ =>
    match ahead with
    | [] => []
    | a :: rest => if p a then [⟨a :: behind, rest, caps⟩] else []
  | .look p, c => if p c.behind c.ahead then [c] else []
  | .seq r s, c => (run r c).flatMap (run s)
  | .star greedy r, c => iterate (run r) greedy c.ahead.length c
  | .group name r, c => (run r c).map (Cursor.capture name c)

/-- The leftmost match at or after a position. -/
def search (r : Pattern α ν) : List α → List α → Option (Cursor α ν)
  | behind, ahead =>
    match (run r ⟨behind, ahead, []⟩).head? with
    | some d => some d
    | none =>
      match ahead with
      | [] => none
      | a :: rest => search r (a :: behind) rest

/-- The leftmost-first match in a text. -/
def captures (r : Pattern α ν) (text : List α) : Option (Cursor α ν) := search r [] text

/-! The rules of `run`, one for each way to build a pattern. -/

@[simp] theorem run_cls_nil (p : α → Bool) (behind : List α) (caps : List (ν × List α)) :
    run (.cls p) ⟨behind, [], caps⟩ = [] := rfl

@[simp] theorem run_cls_cons (p : α → Bool) (behind : List α) (a : α) (rest : List α)
    (caps : List (ν × List α)) :
    run (.cls p) ⟨behind, a :: rest, caps⟩ =
      if p a then [⟨a :: behind, rest, caps⟩] else [] := rfl

@[simp] theorem run_look (p : List α → List α → Bool) (c : Cursor α ν) :
    run (.look p) c = if p c.behind c.ahead then [c] else [] := by rw [run]

@[simp] theorem run_seq (r s : Pattern α ν) (c : Cursor α ν) :
    run (.seq r s) c = (run r c).flatMap (run s) := by rw [run]

@[simp] theorem run_group (name : ν) (r : Pattern α ν) (c : Cursor α ν) :
    run (.group name r) c = (run r c).map (Cursor.capture name c) := by rw [run]

@[simp] theorem run_concat_nil (c : Cursor α ν) : run (Pattern.concat []) c = [c] := by
  simp [Pattern.concat]

@[simp] theorem run_concat_cons (r : Pattern α ν) (rs : List (Pattern α ν))
    (c : Cursor α ν) :
    run (Pattern.concat (r :: rs)) c = (run r c).flatMap (run (Pattern.concat rs)) := by
  rw [Pattern.concat, List.foldr_cons, run_seq]
  rfl

theorem iterate_at_end (body : Cursor α ν → List (Cursor α ν)) (greedy : Bool) (n : Nat)
    {c : Cursor α ν} (hend : c.ahead.length = 0) : iterate body greedy n c = [c] := by
  cases n with
  | zero => rfl
  | succ n =>
    have hnone : ((body c).flatMap fun d =>
        if d.ahead.length < c.ahead.length then iterate body greedy n d else []) = [] := by
      rw [List.flatMap_eq_nil_iff]
      intro d _
      rw [if_neg (by omega)]
    simp [iterate, hnone]

theorem iterate_bound (body : Cursor α ν → List (Cursor α ν)) (greedy : Bool)
    {m n : Nat} {c : Cursor α ν} (hm : c.ahead.length ≤ m) (hn : c.ahead.length ≤ n) :
    iterate body greedy m c = iterate body greedy n c := by
  induction m generalizing n c with
  | zero => rw [iterate_at_end _ _ _ (by omega), iterate_at_end _ _ _ (by omega)]
  | succ m ih =>
    have hagain : ∀ n, c.ahead.length ≤ n + 1 →
        ((body c).flatMap fun d =>
          if d.ahead.length < c.ahead.length then iterate body greedy m d else []) =
        (body c).flatMap fun d =>
          if d.ahead.length < c.ahead.length then iterate body greedy n d else [] := by
      intro n hn
      apply List.flatMap_congr
      intro d _
      split
      · exact ih (by omega) (by omega)
      · rfl
    cases n with
    | zero => rw [iterate_at_end _ _ _ (by omega), iterate_at_end _ _ _ (by omega)]
    | succ n => simp only [iterate, hagain n hn]

/-- One more iteration is taken before stopping if greedy, after stopping if lazy. -/
theorem run_star (greedy : Bool) (r : Pattern α ν) (c : Cursor α ν) :
    run (.star greedy r) c =
      let again := (run r c).flatMap fun d =>
        if d.ahead.length < c.ahead.length then run (.star greedy r) d else []
      if greedy then again ++ [c] else c :: again := by
  have hagain : ∀ n, c.ahead.length ≤ n + 1 →
      ((run r c).flatMap fun d =>
        if d.ahead.length < c.ahead.length then iterate (run r) greedy n d else []) =
      (run r c).flatMap fun d =>
        if d.ahead.length < c.ahead.length then run (.star greedy r) d else [] := by
    intro n hn
    apply List.flatMap_congr
    intro d _
    split
    · rw [run]
      exact iterate_bound (run r) greedy (by omega) (Nat.le_refl _)
    · rfl
  rw [run, iterate_bound (run r) greedy (Nat.le_refl _) (Nat.le_succ _), iterate]
  simp only [hagain _ (Nat.le_succ _)]

/-! Repetition of a single class. -/

theorem run_star_cls_nil (greedy : Bool) (p : α → Bool) (behind : List α)
    (caps : List (ν × List α)) :
    run (.star greedy (.cls p)) ⟨behind, [], caps⟩ = [⟨behind, [], caps⟩] := by
  rw [run_star]
  cases greedy <;> rfl

theorem run_star_cls_cons (greedy : Bool) (p : α → Bool) (behind : List α) (a : α)
    (rest : List α) (caps : List (ν × List α)) :
    run (.star greedy (.cls p)) ⟨behind, a :: rest, caps⟩ =
      let again := if p a then run (.star greedy (.cls p)) ⟨a :: behind, rest, caps⟩ else []
      if greedy then again ++ [⟨behind, a :: rest, caps⟩]
      else ⟨behind, a :: rest, caps⟩ :: again := by
  rw [run_star, run_cls_cons]
  by_cases ha : p a
  · simp [ha]
  · simp [ha]

theorem mem_run_star_cls (greedy : Bool) (p : α → Bool) (c d : Cursor α ν) :
    d ∈ run (.star greedy (.cls p)) c ↔ ∃ w, (∀ a ∈ w, p a) ∧ c.Reads w d := by
  obtain ⟨behind, ahead, caps⟩ := c
  induction ahead generalizing behind with
  | nil =>
    rw [run_star_cls_nil, List.mem_singleton]
    constructor
    · intro h
      exact ⟨[], by simp, Cursor.Reads.nil_iff.mpr h⟩
    · rintro ⟨w, _, hr⟩
      obtain ⟨rfl, _⟩ := List.append_eq_nil_iff.mp hr.ahead.symm
      exact Cursor.Reads.nil_iff.mp hr
  | cons a rest ih =>
    have hmem : d ∈ run (.star greedy (.cls p)) ⟨behind, a :: rest, caps⟩ ↔
        (p a = true ∧ d ∈ run (.star greedy (.cls p)) ⟨a :: behind, rest, caps⟩) ∨
        d = ⟨behind, a :: rest, caps⟩ := by
      rw [run_star_cls_cons]
      cases greedy <;> by_cases ha : p a <;> simp [ha, or_comm]
    rw [hmem]
    constructor
    · rintro (⟨ha, h⟩ | h)
      · obtain ⟨w, hw, hr⟩ := (ih (a :: behind)).mp h
        refine ⟨a :: w, by simpa [ha] using hw, ?_, ?_, hr.caps⟩
        · simpa using hr.ahead
        · simpa using hr.behind
      · exact ⟨[], by simp, Cursor.Reads.nil_iff.mpr h⟩
    · rintro ⟨w, hw, hr⟩
      cases w with
      | nil => exact Or.inr (Cursor.Reads.nil_iff.mp hr)
      | cons b w =>
        have hahead := hr.ahead
        simp only [List.cons_append, List.cons.injEq] at hahead
        obtain ⟨rfl, hrest⟩ := hahead
        refine Or.inl ⟨hw a (by simp), (ih (a :: behind)).mpr
          ⟨w, fun x hx => hw x (by simp [hx]), hrest, ?_, hr.caps⟩⟩
        simpa using hr.behind

/-- A greedy class followed by something that refuses to start inside the class
takes the whole run of the class, without backtracking. -/
theorem flatMap_star_cls (p : α → Bool) (f : Cursor α ν → List β) (c : Cursor α ν)
    (refuses : ∀ d a rest, d.ahead = a :: rest → p a → f d = []) :
    (run (.star true (.cls p)) c).flatMap f = f (c.skipWhile p) := by
  obtain ⟨behind, ahead, caps⟩ := c
  induction ahead generalizing behind with
  | nil => simp [run_star_cls_nil, Cursor.skipWhile]
  | cons a rest ih =>
    rw [run_star_cls_cons]
    by_cases ha : p a
    · have hhere : f ⟨behind, a :: rest, caps⟩ = [] := refuses _ a rest rfl ha
      simp [ha, hhere, ih, Cursor.skipWhile]
    · simp [ha, Cursor.skipWhile]

/-- The preferred way through a greedy class takes the whole run of the class;
every other way leaves at least as much text ahead. -/
theorem run_star_cls_head (p : α → Bool) (c : Cursor α ν) :
    ∃ others, run (.star true (.cls p)) c = c.skipWhile p :: others ∧
      ∀ d ∈ others, ∃ w, d.ahead = w ++ (c.skipWhile p).ahead := by
  obtain ⟨behind, ahead, caps⟩ := c
  induction ahead generalizing behind with
  | nil => exact ⟨[], by simp [run_star_cls_nil, Cursor.skipWhile], by simp⟩
  | cons a rest ih =>
    rw [run_star_cls_cons]
    by_cases ha : p a
    · obtain ⟨others, hrun, hothers⟩ := ih (a :: behind)
      refine ⟨others ++ [⟨behind, a :: rest, caps⟩], by simp [ha, hrun, Cursor.skipWhile], ?_⟩
      intro d hd
      rcases List.mem_append.mp hd with hd | hd
      · obtain ⟨w, hw⟩ := hothers d hd
        exact ⟨w, by simpa [Cursor.skipWhile, ha] using hw⟩
      · rw [List.mem_singleton] at hd
        subst hd
        exact ⟨a :: rest.takeWhile p, by simp [Cursor.skipWhile, ha]⟩
    · exact ⟨[], by simp [ha, Cursor.skipWhile], by simp⟩

/-! A class up to a character outside it. The match commits to the whole run of the
class, so the patterns below are read in one way only. -/

theorem skipWhile_append {p : α → Bool} {behind w : List α} {y : α} {rest : List α}
    {caps : List (ν × List α)} (hw : ∀ a ∈ w, p a) (hy : p y = false) :
    Cursor.skipWhile p ⟨behind, w ++ y :: rest, caps⟩ =
      ⟨w.reverse ++ behind, y :: rest, caps⟩ := by
  have hstop : ¬ p y := by simp [hy]
  rw [Cursor.skipWhile, List.takeWhile_append_of_pos hw, List.dropWhile_append_of_pos hw,
    List.takeWhile_cons_of_neg hstop, List.dropWhile_cons_of_neg hstop, List.append_nil]

theorem flatMap_plus_cls {p : α → Bool} {f : Cursor α ν → List β} {behind w : List α} {y : α}
    {rest : List α} {caps : List (ν × List α)} (hne : w ≠ []) (hw : ∀ a ∈ w, p a)
    (hy : p y = false) (refuses : ∀ d a rest, d.ahead = a :: rest → p a → f d = []) :
    (run (Pattern.plus true (.cls p)) ⟨behind, w ++ y :: rest, caps⟩).flatMap f =
      f ⟨w.reverse ++ behind, y :: rest, caps⟩ := by
  cases w with
  | nil => exact absurd rfl hne
  | cons a w =>
    have ha : p a = true := hw a List.mem_cons_self
    have hrest : ∀ b ∈ w, p b := fun b hb => hw b (List.mem_cons_of_mem a hb)
    rw [Pattern.plus, run_seq, List.cons_append, run_cls_cons, if_pos ha,
      List.flatMap_singleton, flatMap_star_cls p f _ refuses, skipWhile_append hrest hy]
    simp

section Literal
variable [BEq α] [LawfulBEq α] {p : α → Bool} {y : α} {rs : List (Pattern α ν)}
variable {behind w rest : List α} {caps : List (ν × List α)}

theorem run_lit_concat :
    run (Pattern.concat (Pattern.lit y :: rs)) ⟨behind, y :: rest, caps⟩ =
      run (Pattern.concat rs) ⟨y :: behind, rest, caps⟩ := by
  simp [Pattern.lit]

theorem lit_refuses (hy : p y = false) (d : Cursor α ν) (a : α) (rest : List α)
    (hd : d.ahead = a :: rest) (ha : p a) :
    run (Pattern.concat (Pattern.lit y :: rs)) d = [] := by
  obtain ⟨behind, ahead, caps⟩ := d
  obtain rfl : ahead = a :: rest := hd
  have hne : (a == y) = false := by
    rw [beq_eq_false_iff_ne]
    rintro rfl
    rw [hy] at ha
    cases ha
  simp [Pattern.lit, hne]

theorem run_plus_lit (hne : w ≠ []) (hw : ∀ a ∈ w, p a) (hy : p y = false) :
    run (Pattern.concat (Pattern.plus true (.cls p) :: Pattern.lit y :: rs))
        ⟨behind, w ++ y :: rest, caps⟩ =
      run (Pattern.concat rs) ⟨y :: (w.reverse ++ behind), rest, caps⟩ := by
  rw [run_concat_cons, flatMap_plus_cls hne hw hy (lit_refuses hy), run_lit_concat]

theorem run_group_lit {name : ν} (hne : w ≠ []) (hw : ∀ a ∈ w, p a) (hy : p y = false) :
    run (Pattern.concat (.group name (Pattern.plus true (.cls p)) :: Pattern.lit y :: rs))
        ⟨behind, w ++ y :: rest, caps⟩ =
      run (Pattern.concat rs) ⟨y :: (w.reverse ++ behind), rest, (name, w) :: caps⟩ := by
  have refuses : ∀ (d : Cursor α ν) a more, d.ahead = a :: more → p a →
      run (Pattern.concat (Pattern.lit y :: rs))
        (Cursor.capture name ⟨behind, w ++ y :: rest, caps⟩ d) = [] :=
    fun d a more hd ha => lit_refuses hy _ a more hd ha
  rw [run_concat_cons, run_group, List.flatMap_map, flatMap_plus_cls hne hw hy refuses]
  simp only [Cursor.capture, List.length_append, Nat.add_sub_cancel_right, List.take_left']
  rw [run_lit_concat]

end Literal

/-! The rest of the text. -/

theorem run_group_finish (name : ν) (p : α → Bool) (c : Cursor α ν) :
    run (Pattern.concat [.group name (.star true (.cls p)), Pattern.finish]) c =
      if c.ahead.all p then
        [⟨c.ahead.reverse ++ c.behind, [], (name, c.ahead) :: c.caps⟩]
      else [] := by
  have hfinish : ∀ d : Cursor α ν,
      run (Pattern.concat [Pattern.finish]) d = if d.ahead.isEmpty then [d] else [] := by
    intro d
    rw [run_concat_cons, Pattern.finish, run_look]
    split
    · simp
    · rfl
  rw [run_concat_cons, run_group, List.flatMap_map, flatMap_star_cls]
  · rw [hfinish, Cursor.skipWhile, Cursor.capture]
    by_cases hall : c.ahead.all p
    · have hdrop : c.ahead.dropWhile p = [] :=
        List.dropWhile_eq_nil_iff.mpr (by simpa using hall)
      have htake : c.ahead.takeWhile p = c.ahead :=
        List.takeWhile_eq_self_iff.mpr (by simpa using hall)
      simp [hall, hdrop, htake]
    · have hdrop : c.ahead.dropWhile p ≠ [] := fun h =>
        hall (by simpa using List.dropWhile_eq_nil_iff.mp h)
      simp [hall, hdrop]
  · intro d a rest hd _
    rw [hfinish, Cursor.capture, hd]
    rfl

/-- A greedy class before the rest of the text gives nothing back: what it leaves is a
suffix of whatever else could be left. -/
theorem head_run_star_group_finish (name : ν) (q p : α → Bool) (c : Cursor α ν) :
    (run (Pattern.concat [.star true (.cls q), .group name (.star true (.cls p)),
        Pattern.finish]) c).head? =
      if (c.ahead.dropWhile q).all p then
        some ⟨(c.skipWhile q).ahead.reverse ++ (c.skipWhile q).behind, [],
          (name, c.ahead.dropWhile q) :: c.caps⟩
      else none := by
  obtain ⟨others, hrun, hothers⟩ := run_star_cls_head q c
  rw [run_concat_cons, hrun, List.flatMap_cons, run_group_finish]
  by_cases hall : (c.ahead.dropWhile q).all p
  · rw [if_pos hall, if_pos (show (c.skipWhile q).ahead.all p from hall)]
    rfl
  · have hnone : others.flatMap (run (Pattern.concat
        [.group name (.star true (.cls p)), Pattern.finish])) = [] := by
      rw [List.flatMap_eq_nil_iff]
      intro d hd
      obtain ⟨w, hw⟩ := hothers d hd
      rw [run_group_finish, if_neg]
      intro hd
      rw [hw, List.all_append, Bool.and_eq_true] at hd
      exact hall hd.2
    rw [if_neg hall, if_neg (show ¬ (c.skipWhile q).ahead.all p from hall), hnone]
    rfl

/-! What a match that was found has read. -/

theorem exists_of_mem_lit [BEq α] [LawfulBEq α] {y : α} {rs : List (Pattern α ν)}
    {c d : Cursor α ν} (h : d ∈ run (Pattern.concat (Pattern.lit y :: rs)) c) :
    ∃ m : Cursor α ν, c.ahead = y :: m.ahead ∧ d ∈ run (Pattern.concat rs) m := by
  obtain ⟨behind, ahead, caps⟩ := c
  cases ahead with
  | nil => simp [Pattern.lit] at h
  | cons a rest =>
    by_cases ha : a = y
    · subst ha
      rw [run_lit_concat] at h
      exact ⟨_, rfl, h⟩
    · simp [Pattern.lit, ha] at h

theorem exists_of_mem_plus {greedy : Bool} {p : α → Bool} {rs : List (Pattern α ν)}
    {c d : Cursor α ν} (h : d ∈ run (Pattern.concat (Pattern.plus greedy (.cls p) :: rs)) c) :
    ∃ (w : List α) (m : Cursor α ν), w ≠ [] ∧ (∀ a ∈ w, p a) ∧ c.ahead = w ++ m.ahead ∧
      d ∈ run (Pattern.concat rs) m := by
  obtain ⟨behind, ahead, caps⟩ := c
  rw [run_concat_cons, Pattern.plus, run_seq] at h
  obtain ⟨m, hm, hd⟩ := List.mem_flatMap.mp h
  cases ahead with
  | nil => simp at hm
  | cons a rest =>
    rw [run_cls_cons] at hm
    by_cases ha : p a
    · rw [if_pos ha, List.flatMap_singleton, mem_run_star_cls] at hm
      obtain ⟨w, hw, hreads⟩ := hm
      refine ⟨a :: w, m, List.cons_ne_nil a w, ?_, congrArg (List.cons a) hreads.ahead, hd⟩
      intro b hb
      rcases List.mem_cons.mp hb with rfl | hb
      · exact ha
      · exact hw b hb
    · rw [if_neg ha] at hm
      cases hm

theorem exists_of_mem_group_plus {name : ν} {greedy : Bool} {p : α → Bool}
    {rs : List (Pattern α ν)} {c d : Cursor α ν}
    (h : d ∈ run (Pattern.concat (.group name (Pattern.plus greedy (.cls p)) :: rs)) c) :
    ∃ (w : List α) (m : Cursor α ν), w ≠ [] ∧ (∀ a ∈ w, p a) ∧ c.ahead = w ++ m.ahead ∧
      d ∈ run (Pattern.concat rs) m := by
  rw [run_concat_cons, run_group, List.flatMap_map] at h
  obtain ⟨m, hm, hd⟩ := List.mem_flatMap.mp h
  have hplus : m ∈ run (Pattern.concat [Pattern.plus greedy (.cls p)]) c := by
    rw [run_concat_cons, List.mem_flatMap]
    exact ⟨m, hm, by simp⟩
  obtain ⟨w, m', hne, hw, hahead, hlast⟩ := exists_of_mem_plus hplus
  obtain rfl : m = m' := by simpa using hlast
  exact ⟨w, Cursor.capture name c m, hne, hw, hahead, hd⟩

/-! A pattern that begins at the start of the text. -/

theorem search_start_behind (rs : List (Pattern α ν)) {behind : List α} (hne : behind ≠ [])
    (ahead : List α) : search (Pattern.concat (Pattern.start :: rs)) behind ahead = none := by
  have hrefuse : ∀ (b : α) (behind ahead : List α),
      run (Pattern.concat (Pattern.start :: rs)) ⟨b :: behind, ahead, []⟩ = [] := by
    intro b behind ahead
    rw [run_concat_cons, Pattern.start, run_look]
    rfl
  induction ahead generalizing behind with
  | nil =>
    obtain ⟨b, behind, rfl⟩ := List.exists_cons_of_ne_nil hne
    simp [search, hrefuse]
  | cons a rest ih =>
    obtain ⟨b, behind, rfl⟩ := List.exists_cons_of_ne_nil hne
    simp only [search, hrefuse, List.head?_nil]
    exact ih (List.cons_ne_nil a _)

theorem captures_start (rs : List (Pattern α ν)) (text : List α) :
    captures (Pattern.concat (Pattern.start :: rs)) text =
      (run (Pattern.concat rs) ⟨[], text, []⟩).head? := by
  have hhere : run (Pattern.concat (Pattern.start :: rs)) ⟨[], text, []⟩ =
      run (Pattern.concat rs) ⟨[], text, []⟩ := by
    rw [run_concat_cons, Pattern.start, run_look]
    simp
  rw [captures, ← hhere]
  cases text with
  | nil =>
    rw [search]
    cases (run (Pattern.concat (Pattern.start :: rs)) ⟨[], [], []⟩).head? <;> rfl
  | cons a rest =>
    rw [search, search_start_behind rs (List.cons_ne_nil a []) rest]
    cases (run (Pattern.concat (Pattern.start :: rs)) ⟨[], a :: rest, []⟩).head? <;> rfl

end Watchtower.Regex
