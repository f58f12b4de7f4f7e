import Watchtower.Foundation.RegexSearch

/-!
# What a pattern prefers

The preferred match of a pattern is taken apart here along the pattern, and a search is
described by what it finds: the first place where the pattern matches, and there the
match that is preferred.
-/

namespace Watchtower.Regex

open Pattern Cursor

universe u v
variable {α : Type u} {ν : Type v} {r : Pattern α ν} {rs : List (Pattern α ν)}
variable {L M : List α → Prop} {c d : Cursor α ν} {w w' : List α}

theorem Cursor.Reads.unique (reads : c.Reads w d) (reads' : c.Reads w' d) : w = w' :=
  List.append_cancel_right (reads.ahead.symm.trans reads'.ahead)

theorem Prefers.unique (prefers : Prefers r c w) (prefers' : Prefers r c w') : w = w' := by
  obtain ⟨d, others, hrun, reads⟩ := prefers
  obtain ⟨d', others', hrun', reads'⟩ := prefers'
  obtain ⟨rfl, _⟩ := List.cons.inj (hrun.symm.trans hrun')
  exact reads.unique reads'

/-- What is preferred is a word of the language, and the text goes on behind it. -/
theorem Recognises.of_prefers (recognises : Recognises r L) (prefers : Prefers r c w) :
    L w ∧ w <+: c.ahead := by
  obtain ⟨d, others, hrun, reads⟩ := prefers
  obtain ⟨v, hv, reads'⟩ := (recognises c d).mp (hrun ▸ List.mem_cons_self)
  rw [reads.unique reads']
  exact ⟨hv, d.ahead, reads'.ahead.symm⟩

theorem Recognises.run_eq_nil_iff (recognises : Recognises r L) :
    run r c = [] ↔ ∀ w, ¬ Prefers r c w := by
  constructor
  · rintro hnil w ⟨d, others, hrun, _⟩
    rw [hnil] at hrun
    cases hrun
  · intro none
    by_contra hne
    obtain ⟨d, others, hrun⟩ := List.exists_cons_of_ne_nil hne
    obtain ⟨v, _, reads⟩ := (recognises c d).mp (hrun ▸ List.mem_cons_self)
    exact none v ⟨d, others, hrun, reads⟩

/-- The first of all continuations is the first one of some way to begin. -/
theorem exists_of_flatMap_cons {β γ : Type*} {f : β → List γ} {xs : List β} {y : γ}
    {ys : List γ} (h : xs.flatMap f = y :: ys) : ∃ x ∈ xs, ∃ zs, f x = y :: zs := by
  induction xs with
  | nil => cases h
  | cons x xs ih =>
    rw [List.flatMap_cons] at h
    cases hx : f x with
    | nil =>
      rw [hx, List.nil_append] at h
      obtain ⟨z, mem, zs, hz⟩ := ih h
      exact ⟨z, List.mem_cons_of_mem x mem, zs, hz⟩
    | cons z zs =>
      rw [hx] at h
      obtain ⟨rfl, _⟩ := List.cons.inj h
      exact ⟨x, List.mem_cons_self, zs, hx⟩

/-- A match of one pattern after another: the second prefers its part. -/
theorem Prefers.split (first : Recognises r L) (rest : Recognises (concat rs) M)
    (prefers : Prefers (concat (r :: rs)) c w) :
    ∃ x y m, L x ∧ c.Reads x m ∧ Prefers (concat rs) m y ∧ w = x ++ y := by
  obtain ⟨d, others, hrun, reads⟩ := prefers
  rw [run_concat_cons] at hrun
  obtain ⟨m, hm, more, hrest⟩ := exists_of_flatMap_cons hrun
  obtain ⟨x, hx, hread⟩ := (first c m).mp hm
  obtain ⟨y, _, hread'⟩ := (rest m d).mp (hrest ▸ List.mem_cons_self)
  exact ⟨x, y, m, hx, hread, ⟨d, more, hrest, hread'⟩, reads.unique (hread.trans hread')⟩

theorem prefers_concat_singleton : Prefers (concat [r]) c w ↔ Prefers r c w := by
  have hrun : run (concat [r]) c = run r c := by
    have hlast : run (concat ([] : List (Pattern α ν))) = fun c => [c] := funext run_concat_nil
    rw [run_concat_cons, hlast, List.flatMap_singleton']
  rw [Prefers, Prefers, hrun]

/-- A greedy class takes all there is. -/
theorem prefers_plus_cls_iff {p : α → Bool} : Prefers (plus true (.cls p)) c w ↔
    w ≠ [] ∧ w = c.ahead.takeWhile p := by
  have htake : c.ahead.takeWhile p ≠ [] →
      Prefers (plus true (.cls p)) c (c.ahead.takeWhile p) := by
    intro hne
    apply prefers_plus_cls List.takeWhile_append_dropWhile.symm hne
    · exact fun a ha => List.mem_takeWhile_imp ha
    · intro a ha
      have hhead := List.head?_dropWhile_not p c.ahead
      rw [Option.mem_def.mp ha] at hhead
      simpa using hhead
  constructor
  · intro prefers
    obtain ⟨⟨hne, hall⟩, rest, hahead⟩ := (recognises_plus_cls true p).of_prefers prefers
    refine ⟨hne, prefers.unique (htake ?_)⟩
    obtain ⟨a, w, rfl⟩ := List.exists_cons_of_ne_nil hne
    rw [← hahead, List.cons_append, List.takeWhile_cons_of_pos (hall a List.mem_cons_self)]
    exact List.cons_ne_nil _ _
  · rintro ⟨hne, rfl⟩
    exact htake hne

/-- A lazy repetition stops, or the rest of the pattern does not match and it goes on. -/
theorem Prefers.lazy (body : Recognises r L) (rest : Recognises (concat rs) M)
    (nonempty : ∀ x, L x → x ≠ []) (prefers : Prefers (concat (.star false r :: rs)) c w) :
    Prefers (concat rs) c w ∨ run (concat rs) c = [] ∧ ∃ x y m, L x ∧ c.Reads x m ∧
      Prefers (concat (.star false r :: rs)) m y ∧ w = x ++ y := by
  obtain ⟨d, others, hrun, reads⟩ := prefers
  rw [run_concat_cons, run_star] at hrun
  simp only [Bool.false_eq_true, if_false, List.flatMap_cons] at hrun
  cases hhere : run (concat rs) c with
  | cons e more =>
    rw [hhere] at hrun
    obtain ⟨rfl, _⟩ := List.cons.inj hrun
    exact .inl ⟨e, more, hhere, reads⟩
  | nil =>
    right
    refine ⟨rfl, ?_⟩
    rw [hhere, List.nil_append, List.flatMap_assoc] at hrun
    obtain ⟨m, hm, more, hmore⟩ := exists_of_flatMap_cons hrun
    obtain ⟨x, hx, hread⟩ := (body c m).mp hm
    rw [if_pos (hread.length_lt (nonempty x hx)), ← run_concat_cons] at hmore
    have hstar := (body.star nonempty false).concat_cons rest
    obtain ⟨y, _, hread'⟩ := (hstar m d).mp (hmore ▸ List.mem_cons_self)
    exact ⟨x, y, m, hx, hread, ⟨d, more, hmore, hread'⟩, reads.unique (hread.trans hread')⟩

section Search
variable {behind text : List α}

theorem search_eq_some_iff : search r behind text = some d ↔ ∃ x y, text = x ++ y ∧
    (run r ⟨x.reverse ++ behind, y, []⟩).head? = some d ∧
    ∀ x' y', text = x' ++ y' → run r ⟨x'.reverse ++ behind, y', []⟩ ≠ [] →
      x.length ≤ x'.length := by
  induction text generalizing behind with
  | nil =>
    rw [search_nil]
    constructor
    · intro h
      exact ⟨[], [], rfl, h, fun _ _ _ _ => Nat.zero_le _⟩
    · rintro ⟨x, y, hsplit, h, _⟩
      obtain ⟨rfl, rfl⟩ := List.append_eq_nil_iff.mp hsplit.symm
      exact h
  | cons a text ih =>
    rw [search_cons]
    cases hhere : (run r ⟨behind, a :: text, []⟩).head? with
    | some e =>
      rw [Option.some_or, Option.some.injEq]
      have hne : run r ⟨behind, a :: text, []⟩ ≠ [] := by
        intro hnil
        rw [hnil] at hhere
        cases hhere
      constructor
      · rintro rfl
        exact ⟨[], a :: text, rfl, hhere, fun _ _ _ _ => Nat.zero_le _⟩
      · rintro ⟨x, y, hsplit, h, first⟩
        have hzero := first [] (a :: text) rfl hne
        obtain rfl := List.length_eq_zero_iff.mp (Nat.le_zero.mp hzero)
        obtain rfl : a :: text = y := hsplit
        exact Option.some.inj (hhere.symm.trans h)
    | none =>
      rw [Option.none_or, ih]
      have hnil : run r ⟨behind, a :: text, []⟩ = [] := List.head?_eq_none_iff.mp hhere
      constructor
      · rintro ⟨x, y, rfl, h, first⟩
        refine ⟨a :: x, y, rfl, by simpa using h, fun x' y' hsplit hne => ?_⟩
        cases x' with
        | nil =>
          obtain rfl : a :: (x ++ y) = y' := hsplit
          exact absurd hnil hne
        | cons b x' =>
          obtain ⟨rfl, hrest⟩ := List.cons.inj hsplit
          exact Nat.succ_le_succ (first x' y' hrest (by simpa using hne))
      · rintro ⟨x, y, hsplit, h, first⟩
        cases x with
        | nil =>
          obtain rfl : a :: text = y := hsplit
          exact absurd (hhere.symm.trans h) (Option.some_ne_none d).symm
        | cons b x =>
          obtain ⟨rfl, rfl⟩ := List.cons.inj hsplit
          refine ⟨x, y, rfl, by simpa using h, fun x' y' hsplit hne => ?_⟩
          have hle := first (a :: x') y' (by rw [hsplit]; rfl) (by simpa using hne)
          exact Nat.le_of_succ_le_succ hle

end Search

section Field
variable {word : α → Bool} {key : List α}

/-- No word ends right before the place. -/
def Fresh (word : α → Bool) (front : List α) : Prop := ∀ a ∈ front.getLast?, word a = false

/-- What is taken behind the key at the first place where the key begins a word and
something can be taken. -/
def FirstField (word : α → Bool) (key : List α) (takes : List α → List α → Prop)
    (text v : List α) : Prop :=
  ∃ front rest, text = front ++ (key ++ rest) ∧ Fresh word front ∧ takes rest v ∧
    ∀ front' rest' v', text = front' ++ (key ++ rest') → Fresh word front' → takes rest' v' →
      front.length ≤ front'.length

theorem bound_iff_fresh (begins : key.head?.any word = true) (front rest : List α) :
    (front.reverse.head?.any word != (key ++ rest).head?.any word) = true ↔
      Fresh word front := by
  obtain ⟨k, key, rfl⟩ := List.exists_cons_of_ne_nil
    (show key ≠ [] by rintro rfl; cases begins)
  have hk : word k = true := begins
  rw [List.head?_reverse, List.cons_append, List.head?_cons, Option.any_some, hk, Fresh]
  cases front.getLast? with
  | none => simp
  | some a => simp

variable [BEq α] [LawfulBEq α] (name : ν)
variable (begins : key.head?.any word = true) {takes : List α → List α → Prop}
variable (prefers : ∀ c v, Prefers r c v ↔ takes c.ahead v)
include begins prefers

/-- Where the key begins a word, the field captures what is taken behind it. -/
theorem head_run_field [BEq ν] [LawfulBEq ν] {front rest v : List α} (fresh : Fresh word front)
    (h : takes rest v) : ∃ d, (run (field word key (.group name r))
      ⟨front.reverse, key ++ rest, []⟩).head? = some d ∧ d.named name = some v := by
  have hbound := (bound_iff_fresh begins front rest).mpr fresh
  obtain ⟨d, others, hrun, reads⟩ := (prefers ⟨key.reverse ++ front.reverse, rest, []⟩ v).mpr h
  refine ⟨⟨d.behind, d.ahead, [(name, v)]⟩, ?_, List.lookup_cons_self⟩
  rw [run_field hbound, run_group, hrun, List.map_cons, List.head?_cons, capture_of_reads reads]

theorem run_field_ne_nil (recognises : Recognises r L) {front text : List α}
    (h : run (field word key (.group name r)) ⟨front.reverse, text, []⟩ ≠ []) :
    ∃ rest v, text = key ++ rest ∧ Fresh word front ∧ takes rest v := by
  obtain ⟨rest, rfl⟩ : key <+: text := by
    by_contra hkey
    exact h <| run_field_of_not_prefix hkey
  by_cases hbound : (front.reverse.head?.any word != (key ++ rest).head?.any word) = true
  · rw [run_field hbound, run_group] at h
    have hbody := mt recognises.run_eq_nil_iff.mpr (mt (congrArg (List.map _)) h)
    rw [not_forall] at hbody
    obtain ⟨v, hv⟩ := hbody
    have htakes := (prefers _ v).mp (not_not.mp hv)
    exact ⟨rest, v, rfl, (bound_iff_fresh begins front rest).mp hbound, htakes⟩
  · refine absurd ?_ h
    rw [field, run_concat_cons, boundary, run_look, if_neg hbound, List.flatMap_nil]

/-- The search finds the first field. -/
theorem named_search_iff [BEq ν] [LawfulBEq ν] (recognises : Recognises r L)
    {text v : List α} :
    (search (field word key (.group name r)) [] text).bind (·.named name) = some v ↔
      FirstField word key takes text v := by
  have hfound : ∀ front rest v, takes rest v → Fresh word front →
      run (field word key (.group name r)) ⟨front.reverse ++ [], key ++ rest, []⟩ ≠ [] := by
    intro front rest v hv fresh hnil
    obtain ⟨d, hd, _⟩ := head_run_field name begins prefers fresh hv
    rw [List.append_nil] at hnil
    rw [hnil] at hd
    cases hd
  constructor
  · intro h
    obtain ⟨d, hd, hnamed⟩ := Option.bind_eq_some_iff.mp h
    obtain ⟨front, ahead, rfl, hhead, first⟩ := search_eq_some_iff.mp hd
    rw [List.append_nil] at hhead
    have hne : run (field word key (.group name r)) ⟨front.reverse, ahead, []⟩ ≠ [] := by
      intro hnil
      rw [hnil] at hhead
      cases hhead
    obtain ⟨rest, v', rfl, fresh, hv'⟩ := run_field_ne_nil name begins prefers recognises hne
    obtain ⟨d', hd', hnamed'⟩ := head_run_field name begins prefers fresh hv'
    obtain rfl := Option.some.inj (hd'.symm.trans hhead)
    obtain rfl := Option.some.inj (hnamed'.symm.trans hnamed)
    refine ⟨front, rest, rfl, fresh, hv', fun front' rest' w hsplit fresh' hw => ?_⟩
    exact first front' (key ++ rest') hsplit (hfound front' rest' w hw fresh')
  · rintro ⟨front, rest, rfl, fresh, hv, first⟩
    obtain ⟨d, hd, hnamed⟩ := head_run_field name begins prefers fresh hv
    have hsearch : search (field word key (.group name r)) [] (front ++ (key ++ rest)) =
        some d := by
      refine search_eq_some_iff.mpr ⟨front, _, rfl, ?_, fun front' ahead hsplit hne => ?_⟩
      · rw [List.append_nil, hd]
      · rw [List.append_nil] at hne
        obtain ⟨rest', w, rfl, fresh', hw⟩ := run_field_ne_nil name begins prefers recognises hne
        exact first front' rest' w hsplit fresh' hw
    rw [hsearch, Option.bind_some, hnamed]

end Field

end Watchtower.Regex
