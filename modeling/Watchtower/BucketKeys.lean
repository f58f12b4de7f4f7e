import Watchtower.AlertSpacing
import Watchtower.Fields

/-!
# What the bucket keys tell apart

Two events that match a rule share its bucket if their keys are the same text. A
missing field has a text that stands for it in the key, and a log line can spell that
text out; the separator it cannot spell, since no chain has a colon.
-/

namespace Watchtower.Classify

open Parse Text

/-- Equal, if a missing field is read as the text that stands for it. -/
def SameWithDefault (default : String) (first second : Option String) : Prop :=
  first = second ∨ (first = none ∧ second = some default) ∨
    (first = some default ∧ second = none)

theorem getD_eq_iff (default : String) (first second : Option String) :
    first.getD default = second.getD default ↔ SameWithDefault default first second := by
  cases first with
  | none =>
    cases second with
    | none => simp [SameWithDefault]
    | some b => simp [SameWithDefault, eq_comm]
  | some a =>
    cases second with
    | none => simp [SameWithDefault]
    | some b => simp [SameWithDefault]

theorem errorBurst_key {e : StructuredEvent} (hit : (errorBurstPerChain.matchesKey e).isSome) :
    errorBurstPerChain.matchesKey e = some (e.chain.getD "unspecified") := by
  simp only [errorBurstPerChain] at hit ⊢
  split at hit
  · next level => rw [if_pos level]
  · cases hit

theorem rejectCluster_key {e : StructuredEvent}
    (hit : (rejectClusterPerStep.matchesKey e).isSome) :
    rejectClusterPerStep.matchesKey e =
      some (e.chain.getD "any" ++ "::" ++ e.step.getD "unspecified") := by
  simp only [rejectClusterPerStep] at hit ⊢
  split at hit
  · next found => rw [if_pos found]
  · cases hit

variable {u : UnicodeClasses}

theorem chain_no_colon {e : StructuredEvent} (formed : FieldsFormed u e) :
    ':' ∉ (e.chain.getD "any").toList := by
  cases hchain : e.chain with
  | none => decide
  | some chain =>
    intro hmem
    exact absurd ((formed.chain chain hchain).2 ':' hmem) (by decide)

/-- No step is the text that stands for a missing one: a step has a fraction. -/
theorem step_of_getD {e e' : StructuredEvent} (formed : FieldsFormed u e)
    (formed' : FieldsFormed u e')
    (same : e.step.getD "unspecified" = e'.step.getD "unspecified") : e.step = e'.step := by
  have hnever : ∀ {e}, FieldsFormed u e → e.step ≠ some "unspecified" := by
    intro e formed hstep
    obtain ⟨first, fraction, blocks, _, _, ⟨gap, index, total, _, _, _, hfraction⟩, hw⟩ :=
      formed.step _ hstep
    have hslash : '/' ∈ "unspecified".toList := by
      rw [hw, hfraction]
      simp
    exact absurd hslash (by decide)
  rcases (getD_eq_iff _ _ _).mp same with h | ⟨_, h⟩ | ⟨h, _⟩
  · exact h
  · exact absurd h (hnever formed')
  · exact absurd h (hnever formed)

theorem rejectCluster_key_iff {e e' : StructuredEvent} (formed : FieldsFormed u e)
    (formed' : FieldsFormed u e') (hit : (rejectClusterPerStep.matchesKey e).isSome)
    (hit' : (rejectClusterPerStep.matchesKey e').isSome) :
    rejectClusterPerStep.matchesKey e = rejectClusterPerStep.matchesKey e' ↔
      SameWithDefault "any" e.chain e'.chain ∧ e.step = e'.step := by
  rw [rejectCluster_key hit, rejectCluster_key hit', Option.some.injEq, ← getD_eq_iff]
  constructor
  · intro same
    have hlist : (e.chain.getD "any").toList ++ ':' :: ':' :: (e.step.getD "unspecified").toList =
        (e'.chain.getD "any").toList ++ ':' :: ':' :: (e'.step.getD "unspecified").toList := by
      simpa using congrArg String.toList same
    obtain ⟨hchain, hstep⟩ :=
      append_separator_inj (chain_no_colon formed) (chain_no_colon formed') hlist
    exact ⟨String.toList_injective hchain, step_of_getD formed formed'
      (String.toList_injective (List.cons.inj hstep).2)⟩
  · rintro ⟨hchain, hstep⟩
    rw [hchain, hstep]

/-- Keys of one rule are equal exactly if the fields they are made of are, where a
missing chain is not told apart from a chain of the name that stands for it. -/
theorem bucket_keys_identify {line line' : String} {e e' : StructuredEvent}
    (parsed : parseLine u line = .structured e) (parsed' : parseLine u line' = .structured e') :
    (∀ rule ∈ [errorBurstPerChain, errorBaselinePerChain], (rule.matchesKey e).isSome →
      (rule.matchesKey e').isSome → (rule.matchesKey e = rule.matchesKey e' ↔
        SameWithDefault "unspecified" e.chain e'.chain)) ∧
    ((rejectClusterPerStep.matchesKey e).isSome → (rejectClusterPerStep.matchesKey e').isSome →
      (rejectClusterPerStep.matchesKey e = rejectClusterPerStep.matchesKey e' ↔
        SameWithDefault "any" e.chain e'.chain ∧ e.step = e'.step)) := by
  refine ⟨?_, rejectCluster_key_iff (fieldsFormed_of_structured u parsed)
    (fieldsFormed_of_structured u parsed')⟩
  have hburst : (errorBurstPerChain.matchesKey e).isSome →
      (errorBurstPerChain.matchesKey e').isSome →
      (errorBurstPerChain.matchesKey e = errorBurstPerChain.matchesKey e' ↔
        SameWithDefault "unspecified" e.chain e'.chain) := by
    intro hit hit'
    rw [errorBurst_key hit, errorBurst_key hit', Option.some.injEq, getD_eq_iff]
  -- the baseline rule computes its key as the burst rule does
  intro rule mem
  rcases List.mem_pair.mp mem with rfl | rfl
  · exact hburst
  · exact hburst

/-- An error of a chain that has the name of the missing one. -/
def namedUnspecified : StructuredEvent where
  level := .error
  source := "db"
  chain := some "unspecified"
  rid := none
  step := none
  message := "chain=unspecified REJECT"
  raw := "[3 PM] [ERROR] [db] chain=unspecified REJECT"

/-- An error without a chain. -/
def withoutChain : StructuredEvent where
  level := .error
  source := "db"
  chain := none
  rid := none
  step := none
  message := "REJECT"
  raw := "[3 PM] [ERROR] [db] REJECT"

theorem parseLine_namedUnspecified :
    parseLine .ascii namedUnspecified.raw = .structured namedUnspecified := by decide

theorem parseLine_withoutChain :
    parseLine .ascii withoutChain.raw = .structured withoutChain := by decide

/-- The error rules share a bucket there, the reject rule does not. -/
theorem bucket_keys_identify_unspecified :
    errorBurstPerChain.matchesKey namedUnspecified = errorBurstPerChain.matchesKey withoutChain ∧
    errorBaselinePerChain.matchesKey namedUnspecified =
      errorBaselinePerChain.matchesKey withoutChain ∧
    rejectClusterPerStep.matchesKey namedUnspecified ≠
      rejectClusterPerStep.matchesKey withoutChain := by
  have keys := bucket_keys_identify parseLine_namedUnspecified parseLine_withoutChain
  have alike : SameWithDefault "unspecified" namedUnspecified.chain withoutChain.chain :=
    Or.inr (Or.inr ⟨rfl, rfl⟩)
  refine ⟨(keys.1 _ List.mem_cons_self (by decide) (by decide)).mpr alike,
    (keys.1 _ (List.mem_cons_of_mem _ List.mem_cons_self) (by decide) (by decide)).mpr alike, ?_⟩
  intro same
  obtain ⟨h | ⟨h, _⟩ | ⟨h, _⟩, _⟩ := (keys.2 (by decide) (by decide)).mp same
  · cases h
  · cases h
  · exact absurd h (by decide)

/-- A missing chain and a chain named `unspecified` are one to the error rules. -/
theorem missing_chain_collides : ¬ ∀ (u : UnicodeClasses) (line line' : String)
    (e e' : StructuredEvent), parseLine u line = .structured e →
    parseLine u line' = .structured e' →
    (∀ rule ∈ [errorBurstPerChain, errorBaselinePerChain], (rule.matchesKey e).isSome →
      (rule.matchesKey e').isSome →
      (rule.matchesKey e = rule.matchesKey e' ↔ e.chain = e'.chain)) ∧
    ((rejectClusterPerStep.matchesKey e).isSome → (rejectClusterPerStep.matchesKey e').isSome →
      (rejectClusterPerStep.matchesKey e = rejectClusterPerStep.matchesKey e' ↔
        e.chain = e'.chain ∧ e.step = e'.step)) := by
  intro all
  have keys := (all .ascii _ _ _ _ parseLine_namedUnspecified parseLine_withoutChain).1
    errorBurstPerChain List.mem_cons_self (by decide) (by decide)
  exact absurd (keys.mp (by decide)) (by decide)

end Watchtower.Classify
