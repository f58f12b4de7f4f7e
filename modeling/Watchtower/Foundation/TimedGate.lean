import Mathlib.Algebra.Order.Group.Unbundled.Basic
import Mathlib.Data.List.Induction
import Mathlib.Data.List.MinMax
import Mathlib.Order.Basic

/-!
# Gates with a cooldown per key

A visitor passes unless its key passed less than a cooldown ago. The gate is
described by the list of those who passed; a store that forgets only what can no
longer block anyone answers in the same way.
-/

namespace Watchtower.TimedGate

universe u v
variable {Key : Type u} {Time : Type v} [LinearOrder Time] [Add Time]

/-- Some visitor of the key passed less than the cooldown before `now`. -/
def Blocked (cooldown : Time) (passed : List (Key × Time)) (key : Key) (now : Time) : Prop :=
  ∃ time, (key, time) ∈ passed ∧ now < time + cooldown

/-- Visitors of one key passed a cooldown apart. -/
def Apart (cooldown : Time) (passed : List (Key × Time)) : Prop :=
  passed.Pairwise fun first second => first.1 = second.1 → first.2 + cooldown ≤ second.2

theorem apart_concat {cooldown : Time} {passed : List (Key × Time)} {key : Key} {now : Time}
    (apart : Apart cooldown passed) (free : ¬ Blocked cooldown passed key now) :
    Apart cooldown (passed ++ [(key, now)]) := by
  refine List.pairwise_append.mpr ⟨apart, List.pairwise_singleton _ _, ?_⟩
  rintro ⟨first, time⟩ mem second hsecond heq
  obtain rfl := List.mem_singleton.mp hsecond
  obtain rfl : first = key := heq
  exact not_lt.mp fun hlt => free ⟨time, mem, hlt⟩

/-- A store answers for the visitors that passed, from the last of them on. -/
structure Represents (cooldown : Time) (passed : List (Key × Time))
    (lookup : Key → Option Time) : Prop where
  blocked : ∀ now, (∀ visit ∈ passed, visit.2 ≤ now) → ∀ key,
    (∃ time ∈ lookup key, now < time + cooldown) ↔ Blocked cooldown passed key now

theorem represents_empty (cooldown : Time) :
    Represents cooldown ([] : List (Key × Time)) fun _ => none := by
  constructor
  rintro now - key
  constructor
  · rintro ⟨time, hmem, _⟩
    cases hmem
  · rintro ⟨time, hmem, _⟩
    cases hmem

/-- Recording a visitor and forgetting every entry whose cooldown is over. -/
theorem Represents.insert [DecidableEq Key] {cooldown : Time} {passed : List (Key × Time)}
    {lookup : Key → Option Time} (represents : Represents cooldown passed lookup) (key : Key)
    {now : Time} (mono : ∀ {a b : Time}, a ≤ b → a + cooldown ≤ b + cooldown)
    (fresh : now < now + cooldown) (past : ∀ visit ∈ passed, visit.2 ≤ now) :
    Represents cooldown (passed ++ [(key, now)]) fun other =>
      (if other = key then some now else lookup other).filter
        fun time => now < time + cooldown := by
  constructor
  intro later hlater other
  have hnow : now ≤ later := hlater (key, now) (by simp)
  have hpast : ∀ visit ∈ passed, visit.2 ≤ later := fun visit mem =>
    le_trans (past visit mem) hnow
  by_cases heq : other = key
  · subst heq
    simp only [if_true, Option.filter_some, fresh, decide_true, Option.mem_some_iff,
      exists_eq_left']
    constructor
    · intro hlt
      exact ⟨now, by simp, hlt⟩
    · rintro ⟨time, hmem, hlt⟩
      rcases List.mem_append.mp hmem with hmem | hmem
      · exact lt_of_lt_of_le hlt (mono (past (other, time) hmem))
      · obtain ⟨-, rfl⟩ := Prod.mk.inj (List.mem_singleton.mp hmem)
        exact hlt
  · have hold := represents.blocked later hpast other
    have hsame : Blocked cooldown (passed ++ [(key, now)]) other later ↔
        Blocked cooldown passed other later := by
      simp [Blocked, heq]
    rw [hsame, ← hold, if_neg heq]
    constructor
    · rintro ⟨time, hmem, hlt⟩
      obtain ⟨hlookup, _⟩ := Option.mem_filter_iff.mp hmem
      exact ⟨time, hlookup, hlt⟩
    · rintro ⟨time, hmem, hlt⟩
      have hkeep : now < time + cooldown := lt_of_le_of_lt hnow hlt
      exact ⟨time, Option.mem_filter_iff.mpr ⟨hmem, decide_eq_true hkeep⟩, hlt⟩

/-! Stores that forget what is over. -/

/-- The last time the key passed. -/
def Latest (passed : List (Key × Time)) (key : Key) (time : Time) : Prop :=
  (key, time) ∈ passed ∧ ∀ other, (key, other) ∈ passed → other ≤ time

omit [Add Time] in
theorem Latest.unique {passed : List (Key × Time)} {key : Key} {first second : Time}
    (latest : Latest passed key first) (latest' : Latest passed key second) : first = second :=
  le_antisymm (latest'.2 first latest.1) (latest.2 second latest'.1)

omit [Add Time] in
theorem exists_latest {passed : List (Key × Time)} {key : Key} {time : Time}
    (mem : (key, time) ∈ passed) : ∃ last, Latest passed key last ∧ time ≤ last := by
  classical
  have htimes : ∀ t, t ∈ (passed.filter fun visit => visit.1 = key).map Prod.snd ↔
      (key, t) ∈ passed := by
    simp [List.mem_map, List.mem_filter]
  have htime := (htimes time).mpr mem
  have hpos := List.length_pos_of_mem htime
  refine ⟨List.maximum_of_length_pos hpos, ⟨?_, fun other hother => ?_⟩, ?_⟩
  · exact (htimes _).mp (List.maximum_of_length_pos_mem hpos)
  · exact List.le_maximum_of_length_pos_of_mem ((htimes other).mpr hother) hpos
  · exact List.le_maximum_of_length_pos_of_mem htime hpos

omit [Add Time] in
/-- With one more visitor, `now` is still not before any of them. -/
theorem le_of_visited {passed : List (Key × Time)} {now : Time}
    (past : ∀ visit ∈ passed, visit.2 ≤ now) {key : Key} {visit : Key × Time}
    (mem : visit ∈ passed ++ [(key, now)]) : visit.2 ≤ now := by
  rcases List.mem_append.mp mem with mem | mem
  · exact past visit mem
  · rw [List.mem_singleton.mp mem]

/-- A store holds last visits only, and all whose cooldown goes on after `since`. -/
structure Forgets (cooldown : Time) (passed : List (Key × Time)) (since : Time)
    (lookup : Key → Option Time) : Prop where
  sound : ∀ key time, lookup key = some time → Latest passed key time
  complete : ∀ key time, Latest passed key time → since < time + cooldown →
    lookup key = some time

section Forgets
variable {cooldown : Time} {passed : List (Key × Time)} {lookup : Key → Option Time}
  {since now : Time}

theorem forgets_empty (cooldown since : Time) :
    Forgets cooldown ([] : List (Key × Time)) since fun _ => none := by
  constructor
  · rintro key time ⟨⟩
  · rintro key time ⟨mem, _⟩
    cases mem

theorem Forgets.later (forgets : Forgets cooldown passed since lookup) (h : since ≤ now) :
    Forgets cooldown passed now lookup :=
  ⟨forgets.sound, fun key time latest hlt =>
    forgets.complete key time latest (lt_of_le_of_lt h hlt)⟩

/-- What is forgotten blocks nobody any more. -/
theorem Forgets.blocked (forgets : Forgets cooldown passed since lookup) (h : since ≤ now)
    (mono : ∀ {a b : Time}, a ≤ b → a + cooldown ≤ b + cooldown) (key : Key) :
    (∃ time ∈ lookup key, now < time + cooldown) ↔ Blocked cooldown passed key now := by
  constructor
  · rintro ⟨time, hlookup, hlt⟩
    exact ⟨time, (forgets.sound key time hlookup).1, hlt⟩
  · rintro ⟨time, mem, hlt⟩
    obtain ⟨last, latest, hle⟩ := exists_latest mem
    have hlast := lt_of_lt_of_le hlt (mono hle)
    exact ⟨last, forgets.complete key last latest (lt_of_le_of_lt h hlast), hlast⟩

/-- A visitor recorded and the rest swept: what is held are the last visits whose cooldown
goes on. -/
theorem Forgets.insert [DecidableEq Key] (forgets : Forgets cooldown passed since lookup)
    (h : since ≤ now) (past : ∀ visit ∈ passed, visit.2 ≤ now) (key other : Key) (time : Time) :
    ((if other = key then some now else lookup other).filter
        fun time => now < time + cooldown) = some time ↔
      Latest (passed ++ [(key, now)]) other time ∧ now < time + cooldown := by
  rw [Option.filter_eq_some_iff, decide_eq_true_eq]
  refine and_congr_left fun hlt => ?_
  by_cases heq : other = key
  · subst heq
    have hnow : Latest (passed ++ [(other, now)]) other now :=
      ⟨by simp, fun t ht => le_of_visited past ht⟩
    rw [if_pos rfl, Option.some.injEq]
    constructor
    · rintro rfl
      exact hnow
    · exact hnow.unique
  · have hsame : Latest (passed ++ [(key, now)]) other time ↔ Latest passed other time := by
      simp [Latest, heq]
    rw [if_neg heq, hsame]
    exact ⟨forgets.sound other time,
      fun latest => forgets.complete other time latest (lt_of_le_of_lt h hlt)⟩

/-- After a sweep the store still forgets only what is over. -/
theorem forgets_of_exact (exactly : ∀ key time, lookup key = some time ↔
    Latest passed key time ∧ now < time + cooldown) : Forgets cooldown passed now lookup :=
  ⟨fun key time h => ((exactly key time).mp h).1,
    fun key time latest hlt => (exactly key time).mpr ⟨latest, hlt⟩⟩

end Forgets

end Watchtower.TimedGate
