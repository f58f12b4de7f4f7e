import Mathlib.Data.List.Nodup
import Watchtower.WindowSpec

/-!
# What the classifier remembers

As long as the timestamps do not go back, the whole state of the classifier is a function of
what it was called with: a bucket for each (rule, key) that was ever hit, with the hits that
lie within the window of its last hit, and the time of its last alert. Nothing is removed
from a bucket before the next hit, and no bucket ever is.
-/

namespace Watchtower.Classify

open Chrono Machine Parse TimedLog

/-- The state of a bucket as its history has it. -/
def Rule.remembered (rule : Rule) (key : String) (calls : List Call) : Option WindowState :=
  (rule.hits key calls).getLast?.map fun last => {
    events := (rule.hits key calls).filter fun entry => last.1 - rule.window ≤ entry.1
    lastFired := (firedTimes calls rule key).getLast? }

/-- The map of the buckets as the history has it. -/
def remembered (rules : List Rule) (calls : List Call) (id : String × String) :
    Option WindowState :=
  (rules.find? fun rule => rule.name = id.1).bind fun rule => rule.remembered id.2 calls

namespace Classifier

section Touched
variable {id : String × String}

theorem applyRule_touched (e : StructuredEvent) (now : DateTime)
    (acc : Classifier × List Alert) (rule : Rule) :
    ((applyRule e now acc rule).1.states id).isSome ↔
      (acc.1.states id).isSome ∨ rule.name = id.1 ∧ rule.matchesKey e = some id.2 := by
  rw [applyRule]
  cases hkey : rule.matchesKey e with
  | none => simp
  | some key =>
    by_cases hid : id = (rule.name, key)
    · simp [insert, hid]
    · have hother : ¬ (rule.name = id.1 ∧ key = id.2) :=
        fun h => hid (Prod.ext h.1.symm h.2.symm)
      simp [insert, hid, hother]

theorem foldl_touched (e : StructuredEvent) (now : DateTime) (rules : List Rule)
    (acc : Classifier × List Alert) :
    ((rules.foldl (applyRule e now) acc).1.states id).isSome ↔ (acc.1.states id).isSome ∨
      ∃ rule ∈ rules, rule.name = id.1 ∧ rule.matchesKey e = some id.2 := by
  induction rules generalizing acc with
  | nil => simp
  | cons rule rest ih =>
    rw [List.foldl_cons, ih, applyRule_touched]
    simp [or_assoc]

/-- A bucket comes into being with the first call that hits it. -/
theorem step_touched (c : Classifier) (call : Call) :
    ((c.step call).1.states id).isSome ↔ (c.states id).isSome ∨
      ∃ rule ∈ c.rules, rule.name = id.1 ∧ rule.hit id.2 call ≠ none := by
  obtain ⟨event, now⟩ := call
  cases event with
  | unstructured raw => simp [step, ingest, Rule.hit]
  | structured e =>
    rw [step, ingest, foldl_touched]
    simp [Rule.hit]

theorem after_touched (table : RuleTable) (calls : List Call) (id : String × String) :
    ((after step (ofRules table.rules) calls).states id).isSome ↔
      ∃ rule ∈ table.rules, rule.name = id.1 ∧ rule.hits id.2 calls ≠ [] := by
  induction calls using List.reverseRecOn with
  | nil => simp [ofRules, Rule.hits]
  | append_singleton past call ih =>
    have hhits : ∀ rule : Rule, rule.hits id.2 (past ++ [call]) ≠ [] ↔
        rule.hits id.2 past ≠ [] ∨ rule.hit id.2 call ≠ none := by
      intro rule
      cases hhit : rule.hit id.2 call with
      | none => simp [Rule.hits, hhit]
      | some entry => simp [hits_concat_of_hit hhit]
    rw [after_concat, step_touched, ih, after_rules, ← exists_or]
    refine exists_congr fun rule => ?_
    have hrules : rule ∈ (ofRules table.rules).rules ↔ rule ∈ table.rules := Iff.rfl
    rw [hrules, ← and_or_left, ← and_or_left, hhits]

end Touched

end Classifier

section Remembered
variable {rule : Rule} {key : String} {calls : List Call}

theorem rule_of_name {rule other : Rule} (mem : rule ∈ builtinRules)
    (memOther : other ∈ builtinRules) (same : rule.name = other.name) : rule = other :=
  List.inj_on_of_nodup_map builtinTable.distinct mem memOther same

/-- With a hit as the last entry, the bucket is that hit's window. -/
theorem after_hits_eq (mem : rule ∈ builtinRules) (sorted : Sorted Call.now calls)
    {last : DateTime × StructuredEvent} (hlast : (rule.hits key calls).getLast? = some last) :
    after (observeHit rule key) .new (rule.hits key calls) = {
      events := (rule.hits key calls).filter fun entry => last.1 - rule.window ≤ entry.1
      lastFired := (firedTimes calls rule key).getLast? } := by
  have hwindow : 0 ≤ rule.window := le_of_lt (builtinTable.window_pos rule mem)
  obtain ⟨front, hfront⟩ := List.getLast?_eq_some_iff.mp hlast
  have hsorted := hits_sorted rule key sorted
  have hevents := events_after rule key (rule.hits key calls)
  rw [hfront] at hsorted hevents
  rw [foldl_slide_concat hwindow hsorted, ← hfront] at hevents
  have hfired := lastFired_after rule key (rule.hits key calls)
  rw [← Classifier.alerts_for_bucket builtinTable calls mem key] at hfired
  cases hstate : after (observeHit rule key) .new (rule.hits key calls) with
  | mk events lastFired =>
    rw [hstate] at hevents hfired
    rw [WindowState.mk.injEq]
    exact ⟨hevents, hfired⟩

theorem states_eq_remembered (mem : rule ∈ builtinRules) (sorted : Sorted Call.now calls) :
    (after Classifier.step .new calls).states (rule.name, key) = rule.remembered key calls := by
  have htouched := Classifier.after_touched builtinTable calls (rule.name, key)
  have hbucket := Classifier.bucket_after builtinTable calls mem key
  cases hlast : (rule.hits key calls).getLast? with
  | none =>
    rw [Rule.remembered, hlast, Option.map_none, ← Option.not_isSome_iff_eq_none]
    intro hsome
    obtain ⟨other, hother, hname, hhits⟩ := htouched.mp hsome
    rw [rule_of_name hother mem hname] at hhits
    exact hhits (List.getLast?_eq_none_iff.mp hlast)
  | some last =>
    have hhits : rule.hits key calls ≠ [] := by
      intro hnil
      rw [hnil] at hlast
      cases hlast
    obtain ⟨state, hstate⟩ := Option.isSome_iff_exists.mp (htouched.mpr ⟨rule, mem, rfl, hhits⟩)
    rw [Classifier.bucket, hstate, Option.getD_some, after_hits_eq mem sorted hlast] at hbucket
    rw [Rule.remembered, hlast, Option.map_some, ← hbucket]
    exact hstate

end Remembered

/-- After every run whose timestamps do not go back, the map of the buckets is what the
history makes it, for every name and key. -/
theorem memory_exact (calls : List Call) (sorted : Sorted Call.now calls)
    (id : String × String) :
    (after Classifier.step .new calls).states id = remembered builtinRules calls id := by
  rw [remembered]
  cases hfind : builtinRules.find? fun rule => rule.name = id.1 with
  | none =>
    rw [Option.bind_none, ← Option.not_isSome_iff_eq_none]
    intro hsome
    obtain ⟨rule, mem, hname, _⟩ := (Classifier.after_touched builtinTable calls id).mp hsome
    have hno := List.find?_eq_none.mp hfind rule mem
    exact hno (decide_eq_true hname)
  | some rule =>
    have mem := List.mem_of_find?_eq_some hfind
    have hname : rule.name = id.1 := by simpa using List.find?_some hfind
    rw [Option.bind_some, ← states_eq_remembered mem sorted, hname]

/-- The third error is more than a minute later than the first. -/
theorem memory_exact_three_errors :
    ((after Classifier.step .new (chainErrors [0, 30, 70])).states
      (errorBurstPerChain.name, "registration")).map WindowState.events =
        some [(Duration.seconds 30, chainError), (Duration.seconds 70, chainError)] := by
  rw [memory_exact (chainErrors [0, 30, 70]) (by decide)]
  decide +kernel

end Watchtower.Classify
