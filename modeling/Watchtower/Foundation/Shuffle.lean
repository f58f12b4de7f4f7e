import Mathlib.Data.List.Basic
import Mathlib.Logic.Function.Basic

/-!
# Shuffles

Sequences from several sources merged into one, none of them reordered. A shuffle is a log
whose entries carry their source: the merged sequence forgets the sources, and the part of
a source is what the log has of it.
-/

namespace Watchtower.Shuffle

universe u v
variable {Source : Type u} {Entry : Type v} [DecidableEq Source]

/-- The entries of a log that come from one source. -/
def part (log : List (Source × Entry)) (source : Source) : List Entry :=
  (log.filter fun entry => entry.1 = source).map Prod.snd

/-- The sequence is a merge of the parts. -/
def IsShuffle (parts : Source → List Entry) (whole : List Entry) : Prop :=
  ∃ log, log.map Prod.snd = whole ∧ ∀ source, part log source = parts source

theorem part_append (earlier later : List (Source × Entry)) (source : Source) :
    part (earlier ++ later) source = part earlier source ++ part later source := by
  rw [part, List.filter_append, List.map_append]
  rfl

omit [DecidableEq Source] in
theorem map_snd_tagged (source : Source) (entries : List Entry) :
    (entries.map (Prod.mk source)).map Prod.snd = entries := by
  rw [List.map_map]
  exact List.map_id entries

theorem part_tagged (source other : Source) (entries : List Entry) :
    part (entries.map (Prod.mk source)) other = if source = other then entries else [] := by
  split
  · next same =>
    rw [part, List.filter_eq_self.mpr, map_snd_tagged]
    intro entry mem
    obtain ⟨_, _, rfl⟩ := List.mem_map.mp mem
    exact decide_eq_true same
  · next differs =>
    rw [part, List.filter_eq_nil_iff.mpr]
    · rfl
    · intro entry mem
      obtain ⟨_, _, rfl⟩ := List.mem_map.mp mem
      simpa using differs

theorem isShuffle_nil : IsShuffle (fun _ : Source => ([] : List Entry)) [] :=
  ⟨[], rfl, fun _ => rfl⟩

variable {parts : Source → List Entry} {whole : List Entry}

/-- What one source adds at the end of the whole it adds at the end of its part. -/
theorem IsShuffle.append (shuffle : IsShuffle parts whole) (source : Source)
    (entries : List Entry) :
    IsShuffle (Function.update parts source (parts source ++ entries)) (whole ++ entries) := by
  obtain ⟨log, rfl, hparts⟩ := shuffle
  refine ⟨log ++ entries.map (Prod.mk source), ?_, fun other => ?_⟩
  · rw [List.map_append, map_snd_tagged]
  · rw [part_append, part_tagged, hparts]
    split
    · next same => rw [← same, Function.update_self]
    · next differs => rw [Function.update_of_ne (Ne.symm differs), List.append_nil]

/-- A source that is the only one makes up the whole. -/
theorem IsShuffle.eq_of_alone (shuffle : IsShuffle parts whole) {source : Source}
    (alone : ∀ other, other ≠ source → parts other = []) : whole = parts source := by
  obtain ⟨log, rfl, hparts⟩ := shuffle
  rw [← hparts, part, List.filter_eq_self.mpr]
  intro entry mem
  by_contra differs
  have hne : entry.1 ≠ source := by simpa using differs
  have hnone := (hparts entry.1).trans (alone entry.1 hne)
  rw [part, List.map_eq_nil_iff, List.filter_eq_nil_iff] at hnone
  exact hnone entry mem (decide_eq_true rfl)

end Watchtower.Shuffle
