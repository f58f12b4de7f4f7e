import Mathlib.Algebra.Ring.Nat
import Mathlib.Data.List.DropRight
import Mathlib.Data.List.Infix

/-!
# Text as a list of characters

Texts joined by a separator come apart again, trimming stops at the last character
that stays, and a byte index of the UTF-8 encoding cuts a text in two only where a
character begins.
-/

namespace Watchtower.Text

universe u
variable {α : Type u}

/-- The text before the first separator and the text after it are determined. -/
theorem append_separator_inj {sep : α} {xs ys us vs : List α} (hxs : sep ∉ xs)
    (hys : sep ∉ ys) (h : xs ++ sep :: us = ys ++ sep :: vs) : xs = ys ∧ us = vs := by
  rcases List.append_eq_append_iff.mp h with ⟨more, rfl, hmore⟩ | ⟨more, rfl, hmore⟩
  · cases more with
    | nil => exact ⟨(List.append_nil xs).symm, (List.cons.inj hmore).2⟩
    | cons a rest =>
      obtain ⟨rfl, _⟩ := List.cons.inj hmore
      exact absurd (List.mem_append_right xs List.mem_cons_self) hys
  · cases more with
    | nil => exact ⟨List.append_nil ys, (List.cons.inj hmore).2.symm⟩
    | cons a rest =>
      obtain ⟨rfl, _⟩ := List.cons.inj hmore
      exact absurd (List.mem_append_right ys List.mem_cons_self) hxs

/-- So are the text before the last separator and the text after it. -/
theorem append_last_separator_inj {sep : α} {xs ys us vs : List α} (hus : sep ∉ us)
    (hvs : sep ∉ vs) (h : xs ++ sep :: us = ys ++ sep :: vs) : xs = ys ∧ us = vs := by
  have hreverse : us.reverse ++ sep :: xs.reverse = vs.reverse ++ sep :: ys.reverse := by
    simpa using congrArg List.reverse h
  have hparts := append_separator_inj (by simpa using hus) (by simpa using hvs) hreverse
  exact ⟨List.reverse_injective hparts.2, List.reverse_injective hparts.1⟩

/-- Two runs of a class that end in the same text are the same. -/
theorem run_inj {p : α → Bool} {x x' us vs : List α} (hx : ∀ c ∈ x, p c)
    (hx' : ∀ c ∈ x', p c) (hus : ∀ c ∈ us.head?, p c = false) (hvs : ∀ c ∈ vs.head?, p c = false)
    (h : x ++ us = x' ++ vs) : x = x' ∧ us = vs := by
  have hstop : ∀ ws : List α, (∀ c ∈ ws.head?, p c = false) → ws.takeWhile p = [] := by
    intro ws hws
    cases ws with
    | nil => rfl
    | cons c ws => exact List.takeWhile_cons_of_neg (by simp [hws c rfl])
  have htake := congrArg (List.takeWhile p) h
  rw [List.takeWhile_append_of_pos hx, List.takeWhile_append_of_pos hx', hstop us hus,
    hstop vs hvs, List.append_nil, List.append_nil] at htake
  exact ⟨htake, List.append_cancel_left (htake ▸ h)⟩

/-- Lines that are each ended by the separator. -/
def terminated (sep : α) (lines : List (List α)) : List α := lines.flatMap (· ++ [sep])

theorem terminated_cons (sep : α) (line : List α) (lines : List (List α)) :
    terminated sep (line :: lines) = line ++ sep :: terminated sep lines := by
  rw [terminated, List.flatMap_cons, List.append_assoc, List.singleton_append]
  rfl

@[simp] theorem terminated_nil (sep : α) : terminated sep [] = [] := rfl

theorem terminated_append (sep : α) (front back : List (List α)) :
    terminated sep (front ++ back) = terminated sep front ++ terminated sep back :=
  List.flatMap_append

/-- A text of ended lines begins another only where its lines begin the other's. -/
theorem terminated_prefix_iff {sep : α} {lines lines' : List (List α)}
    (clean : ∀ line ∈ lines, sep ∉ line) (clean' : ∀ line ∈ lines', sep ∉ line) :
    terminated sep lines <+: terminated sep lines' ↔ lines <+: lines' := by
  constructor
  · intro h
    induction lines generalizing lines' with
    | nil => exact List.nil_prefix
    | cons line lines ih =>
      obtain ⟨hline, hlines⟩ := List.forall_mem_cons.mp clean
      obtain ⟨rest, hrest⟩ := h
      rw [terminated_cons, List.append_assoc, List.cons_append] at hrest
      cases lines' with
      | nil => simp at hrest
      | cons line' lines' =>
        obtain ⟨hline', hlines'⟩ := List.forall_mem_cons.mp clean'
        rw [terminated_cons] at hrest
        obtain ⟨rfl, hback⟩ := append_separator_inj hline hline' hrest
        exact List.cons_prefix_cons.mpr ⟨rfl, ih hlines hlines' ⟨rest, hback⟩⟩
  · rintro ⟨more, rfl⟩
    rw [terminated_append]
    exact List.prefix_append _ _

theorem length_splitOn [BEq α] (sep : α) (text : List α) :
    (text.splitOn sep).length = text.count sep + 1 := by
  induction text with
  | nil => simp
  | cons a text ih =>
    rw [List.splitOn_cons_eq_if_modifyHead, List.count_cons]
    split
    · rw [List.length_cons, ih]
    · rw [List.length_modifyHead, ih, Nat.add_zero]

section Lines
variable [BEq α] [LawfulBEq α] {sep : α}

theorem not_mem_of_mem_splitOn {text : List α} :
    ∀ piece ∈ text.splitOn sep, sep ∉ piece := by
  induction text with
  | nil => simp
  | cons c rest ih =>
    rw [List.splitOn_cons_eq_if_modifyHead]
    by_cases hc : c = sep
    · rw [if_pos (beq_iff_eq.mpr hc)]
      exact List.forall_mem_cons.mpr ⟨List.not_mem_nil, ih⟩
    · rw [if_neg (by simpa using hc)]
      cases hrest : rest.splitOn sep with
      | nil => simp
      | cons piece pieces =>
        rw [hrest] at ih
        obtain ⟨hpiece, hpieces⟩ := List.forall_mem_cons.mp ih
        refine List.forall_mem_cons.mpr ⟨?_, hpieces⟩
        rw [List.mem_cons, not_or]
        exact ⟨Ne.symm hc, hpiece⟩

theorem count_terminated (lines : List (List α)) : (terminated sep lines).count sep =
    (lines.map (List.count sep)).sum + lines.length := by
  induction lines with
  | nil => rfl
  | cons line lines ih =>
    rw [terminated_cons, List.count_append, List.count_cons_self, ih, List.map_cons,
      List.sum_cons, List.length_cons]
    omega

/-- Lines come apart as they were put together unless one of them has a separator. -/
theorem splitOn_terminated_iff (lines : List (List α)) :
    (terminated sep lines).splitOn sep = lines ++ [[]] ↔ ∀ line ∈ lines, sep ∉ line := by
  constructor
  · intro h line mem hsep
    have hlength := congrArg List.length h
    rw [length_splitOn, count_terminated, List.length_append, List.length_singleton] at hlength
    have hsum : (lines.map (List.count sep)).sum = 0 := by omega
    have hnone := List.sum_eq_zero_iff_forall_eq_nat.mp hsum _ (List.mem_map_of_mem mem)
    exact List.count_eq_zero.mp hnone hsep
  · intro clean
    induction lines with
    | nil => simp [terminated]
    | cons line lines ih =>
      obtain ⟨hline, hlines⟩ := List.forall_mem_cons.mp clean
      rw [terminated_cons, List.splitOn_append_cons_self_of_not_mem hline, ih hlines,
        List.cons_append]

end Lines

theorem rdropWhile_append_of_last {p : α → Bool} {last : α} (hlast : p last = false)
    (front back : List α) :
    (front ++ last :: back).rdropWhile p = front ++ last :: back.rdropWhile p := by
  have hstay : (last :: front.reverse).dropWhile p = last :: front.reverse :=
    List.dropWhile_cons_of_neg (by simp [hlast])
  rw [List.rdropWhile, List.rdropWhile, List.reverse_append, List.reverse_cons,
    List.append_assoc, List.singleton_append, List.dropWhile_append, hstay]
  split
  · next hempty =>
    rw [List.isEmpty_iff] at hempty
    simp [hempty]
  · simp

/-! Byte indices. -/

/-- The length of the UTF-8 encoding. -/
def byteLen : List Char → Nat
  | [] => 0
  | c :: text => c.utf8Size + byteLen text

@[simp] theorem byteLen_nil : byteLen [] = 0 := rfl

@[simp] theorem byteLen_cons (c : Char) (text : List Char) :
    byteLen (c :: text) = c.utf8Size + byteLen text := rfl

@[simp] theorem byteLen_append (front back : List Char) :
    byteLen (front ++ back) = byteLen front + byteLen back := by
  induction front with
  | nil => simp
  | cons c front ih =>
    rw [List.cons_append, byteLen_cons, byteLen_cons, ih]
    omega

theorem byteLen_replicate (n : Nat) (c : Char) :
    byteLen (List.replicate n c) = n * c.utf8Size := by
  induction n with
  | zero => simp
  | succ n ih => rw [List.replicate_succ, byteLen_cons, ih, Nat.succ_mul, Nat.add_comm]

theorem byteLen_of_ascii {text : List Char} (ascii : ∀ c ∈ text, c.toNat ≤ 127) :
    byteLen text = text.length := by
  induction text with
  | nil => rfl
  | cons c text ih =>
    obtain ⟨hc, htext⟩ := List.forall_mem_cons.mp ascii
    rw [byteLen_cons, ih htext, Char.utf8Size_eq_one_iff.mpr hc, List.length_cons, Nat.add_comm]

theorem byteLen_eq_zero {text : List Char} : byteLen text = 0 ↔ text = [] := by
  cases text with
  | nil => simp
  | cons c text =>
    have hpos := c.utf8Size_pos
    simp only [byteLen_cons, reduceCtorEq, iff_false]
    omega

theorem utf8ByteSize_ofList (text : List Char) :
    (String.ofList text).utf8ByteSize = byteLen text := by
  induction text with
  | nil => rfl
  | cons c text ih =>
    have hsplit : String.ofList (c :: text) = String.singleton c ++ String.ofList text := by
      apply String.toList_injective
      simp
    rw [hsplit, String.utf8ByteSize_append, ih]
    simp

theorem toUTF8_eq (s : String) : s.toUTF8 = s.toList.utf8Encode := by
  obtain ⟨text, rfl⟩ := s.exists_eq_ofList
  rw [String.toList_ofList]
  rfl

/-- A text whose encoding begins another's begins the other. -/
theorem toList_begins {s t : String}
    (bytes : s.toUTF8.data.toList <+: t.toUTF8.data.toList) : s.toList <+: t.toList := by
  obtain ⟨rest, hrest⟩ := bytes
  apply List.isPrefix_of_utf8Encode_append_eq_utf8Encode ⟨rest.toArray⟩
  rw [← toUTF8_eq, ← toUTF8_eq]
  apply ByteArray.ext
  apply Array.toList_inj.mp
  rw [ByteArray.data_append, Array.toList_append]
  exact hrest

/-- The text up to a byte index. There is none past the end or inside a character. -/
def sliceTo : Nat → List Char → Option (List Char)
  | 0, _ => some []
  | _ + 1, [] => none
  | n + 1, c :: text =>
    if c.utf8Size ≤ n + 1 then (sliceTo (n + 1 - c.utf8Size) text).map (c :: ·) else none

theorem sliceTo_zero_eq_some {text front : List Char} :
    sliceTo 0 text = some front ↔ ∃ back, text = front ++ back ∧ byteLen front = 0 := by
  rw [sliceTo, Option.some.injEq]
  constructor
  · rintro rfl
    exact ⟨text, rfl, rfl⟩
  · rintro ⟨back, _, hlen⟩
    exact (byteLen_eq_zero.mp hlen).symm

theorem sliceTo_eq_some {n : Nat} {text front : List Char} :
    sliceTo n text = some front ↔ ∃ back, text = front ++ back ∧ byteLen front = n := by
  induction text generalizing n front with
  | nil =>
    cases n with
    | zero => exact sliceTo_zero_eq_some
    | succ n =>
      rw [sliceTo]
      constructor
      · rintro ⟨⟩
      · rintro ⟨back, h, hlen⟩
        rw [(List.append_eq_nil_iff.mp h.symm).1] at hlen
        cases hlen
  | cons c text ih =>
    have hpos := c.utf8Size_pos
    cases n with
    | zero => exact sliceTo_zero_eq_some
    | succ n =>
      rw [sliceTo]
      constructor
      · intro h
        rw [Option.ite_none_right_eq_some] at h
        obtain ⟨hsize, h⟩ := h
        obtain ⟨tail, htail, rfl⟩ := Option.map_eq_some_iff.mp h
        obtain ⟨back, rfl, hlen⟩ := ih.mp htail
        refine ⟨back, rfl, ?_⟩
        rw [byteLen_cons, hlen]
        omega
      · rintro ⟨back, h, hlen⟩
        cases front with
        | nil => cases hlen
        | cons a front =>
          obtain ⟨rfl, rfl⟩ := List.cons.inj h
          rw [byteLen_cons] at hlen
          rw [if_pos (by omega), ih.mpr ⟨back, rfl, by omega⟩]
          rfl

/-- A character of the text begins at the byte index, or the text ends there. -/
def IsCharBoundary (n : Nat) (text : List Char) : Prop :=
  ∃ front back, text = front ++ back ∧ byteLen front = n

theorem sliceTo_isSome {n : Nat} {text : List Char} :
    (sliceTo n text).isSome ↔ IsCharBoundary n text := by
  rw [Option.isSome_iff_exists]
  exact exists_congr fun front => sliceTo_eq_some

end Watchtower.Text
