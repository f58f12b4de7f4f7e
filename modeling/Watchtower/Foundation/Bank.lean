import Watchtower.Foundation.Machine

/-!
# Banks of machines

Machines of one kind that are given every input one after the other, in the order of the
bank. An output can stop everything: the machines behind it do not see the input, and none
sees a later one. Each machine of a bank is described by what it does by itself.
-/

namespace Watchtower.Bank

open Machine

universe u v w
variable {State : Type u} {Input : Type v} {Output : Type w}

/-- The bank that is left, what it has put out, and whether nothing stopped it. -/
structure Outcome (State : Type u) (Emitted : Type w) where
  bank : List State
  emitted : List Emitted
  complete : Bool

variable (step : State → Input → State × Output) (stops : Output → Bool)

/-- One input for each machine in turn. -/
def offer (x : Input) : List State → Outcome State Output
  | [] => ⟨[], [], true⟩
  | s :: rest =>
    let done := step s x
    if stops done.2 then ⟨done.1 :: rest, [done.2], false⟩
    else
      let later := offer x rest
      ⟨done.1 :: later.bank, done.2 :: later.emitted, later.complete⟩

/-- The inputs one by one, each with the outputs it led to. -/
def offerAll : List State → List Input → Outcome State (List Output)
  | bank, [] => ⟨bank, [], true⟩
  | bank, x :: rest =>
    let done := offer step stops x bank
    if done.complete then
      let later := offerAll done.bank rest
      ⟨later.bank, done.emitted :: later.emitted, later.complete⟩
    else ⟨done.bank, [done.emitted], false⟩

/-- What the machine at one place has put out. -/
def column (i : Nat) (emitted : List (List Output)) : List Output :=
  emitted.filterMap fun row => row[i]?

theorem column_cons (i : Nat) (row : List Output) (rows : List (List Output)) :
    column i (row :: rows) = row[i]?.toList ++ column i rows := by
  rw [column, List.filterMap_cons]
  cases row[i]? with
  | none => rfl
  | some out => rfl

/-- No machine of the bank stops on the inputs. -/
def Quiet (bank : List State) (inputs : List Input) : Prop :=
  ∀ s ∈ bank, ∀ out ∈ outputs step s inputs, stops out = false

/-- The machine at place `p` is the first to stop, on the input after `before`. -/
structure StopsAt (bank : List State) (before : List Input) (x : Input) (p : Nat) : Prop where
  quiet : Quiet step stops bank before
  stopper : ∃ s, bank[p]? = some s ∧ stops (step (after step s before) x).2 = true
  ahead : ∀ i < p, ∀ s, bank[i]? = some s → stops (step (after step s before) x).2 = false

variable {step stops} {bank : List State} {x : Input}

section Offer

theorem offer_of_quiet (quiet : ∀ s ∈ bank, stops (step s x).2 = false) :
    offer step stops x bank =
      ⟨bank.map fun s => (step s x).1, bank.map fun s => (step s x).2, true⟩ := by
  induction bank with
  | nil => rfl
  | cons s rest ih =>
    obtain ⟨hs, hrest⟩ := List.forall_mem_cons.mp quiet
    rw [offer, hs, ih hrest]
    rfl

/-- The machines up to the one that stops have made their step, those behind it have not. -/
theorem offer_of_stop {p : Nat} (ahead : ∀ i < p, ∀ s, bank[i]? = some s →
    stops (step s x).2 = false) {s : State} (hs : bank[p]? = some s)
    (stop : stops (step s x).2 = true) :
    (offer step stops x bank).complete = false ∧ ∀ i t, bank[i]? = some t →
      (offer step stops x bank).bank[i]? = some (if i ≤ p then (step t x).1 else t) ∧
      (offer step stops x bank).emitted[i]? = if i ≤ p then some (step t x).2 else none := by
  induction bank generalizing p with
  | nil => cases hs
  | cons f rest ih =>
    cases p with
    | zero =>
      obtain rfl := Option.some.inj hs
      rw [offer, stop]
      refine ⟨rfl, fun i t ht => ?_⟩
      cases i with
      | zero =>
        obtain rfl := Option.some.inj ht
        exact ⟨rfl, rfl⟩
      | succ i => exact ⟨ht, rfl⟩
    | succ p =>
      have hf := ahead 0 (Nat.succ_pos p) f rfl
      obtain ⟨hcomplete, hplaces⟩ :=
        ih (fun i hi => ahead (i + 1) (Nat.succ_lt_succ hi)) hs
      rw [offer, hf]
      refine ⟨hcomplete, fun i t ht => ?_⟩
      cases i with
      | zero =>
        obtain rfl := Option.some.inj ht
        exact ⟨rfl, rfl⟩
      | succ i =>
        simp only [Nat.succ_le_succ_iff]
        exact hplaces i t ht

/-- A bank either goes on or has a first machine that stops. -/
theorem quiet_or_first (bank : List State) (x : Input) :
    (∀ s ∈ bank, stops (step s x).2 = false) ∨
      ∃ (p : Nat) (s : State), bank[p]? = some s ∧ stops (step s x).2 = true ∧
        ∀ i < p, ∀ f, bank[i]? = some f → stops (step f x).2 = false := by
  induction bank with
  | nil => exact .inl fun s mem => absurd mem List.not_mem_nil
  | cons s rest ih =>
    cases hs : stops (step s x).2 with
    | true => exact .inr ⟨0, s, rfl, hs, fun i hi => absurd hi (Nat.not_lt_zero i)⟩
    | false =>
      rcases ih with hrest | ⟨p, t, ht, hstop, ahead⟩
      · exact .inl (List.forall_mem_cons.mpr ⟨hs, hrest⟩)
      · refine .inr ⟨p + 1, t, ht, hstop, fun i hi f hf => ?_⟩
        cases i with
        | zero =>
          obtain rfl := Option.some.inj hf
          exact hs
        | succ i => exact ahead i (Nat.lt_of_succ_lt_succ hi) f hf

end Offer

theorem quiet_cons {rest : List Input} : Quiet step stops bank (x :: rest) ↔
    (∀ s ∈ bank, stops (step s x).2 = false) ∧
      Quiet step stops (bank.map fun s => (step s x).1) rest := by
  simp only [Quiet, outputs_cons, List.forall_mem_cons, List.forall_mem_map, forall_and]

theorem stopsAt_cons {y : Input} {before : List Input} {p : Nat} :
    StopsAt step stops bank (x :: before) y p ↔
      (∀ s ∈ bank, stops (step s x).2 = false) ∧
        StopsAt step stops (bank.map fun s => (step s x).1) before y p := by
  constructor
  · rintro ⟨quiet, ⟨s, hs, stop⟩, ahead⟩
    obtain ⟨hfirst, hquiet⟩ := quiet_cons.mp quiet
    refine ⟨hfirst, hquiet, ⟨(step s x).1, by rw [List.getElem?_map, hs]; rfl, stop⟩, ?_⟩
    intro i hi t ht
    rw [List.getElem?_map, Option.map_eq_some_iff] at ht
    obtain ⟨f, hf, rfl⟩ := ht
    exact ahead i hi f hf
  · rintro ⟨hfirst, quiet, ⟨t, ht, stop⟩, ahead⟩
    rw [List.getElem?_map, Option.map_eq_some_iff] at ht
    obtain ⟨s, hs, rfl⟩ := ht
    refine ⟨quiet_cons.mpr ⟨hfirst, quiet⟩, ⟨s, hs, stop⟩, fun i hi f hf => ?_⟩
    exact ahead i hi _ (by rw [List.getElem?_map, hf]; rfl)

/-- On any inputs a bank is quiet or stops at some point. -/
theorem quiet_or_stopsAt (bank : List State) (inputs : List Input) :
    Quiet step stops bank inputs ∨ ∃ before x later p, inputs = before ++ x :: later ∧
      StopsAt step stops bank before x p := by
  induction inputs generalizing bank with
  | nil => exact .inl fun s _ out mem => absurd mem List.not_mem_nil
  | cons x rest ih =>
    rcases quiet_or_first bank x with hfirst | ⟨p, s, hs, hstop, ahead⟩
    · rcases ih (bank.map fun s => (step s x).1) with quiet | ⟨before, y, later, p, rfl, hat⟩
      · exact .inl (quiet_cons.mpr ⟨hfirst, quiet⟩)
      · exact .inr ⟨x :: before, y, later, p, rfl, stopsAt_cons.mpr ⟨hfirst, hat⟩⟩
    · exact .inr ⟨[], x, rest, p, rfl, fun s _ out mem => absurd mem List.not_mem_nil,
        ⟨s, hs, hstop⟩, ahead⟩

/-- The inputs that a machine has seen: what it is now and what it has put out are what it
makes of these by itself. -/
structure Saw (step : State → Input → State × Output)
    (done : Outcome State (List Output)) (i : Nat) (s : State) (inputs : List Input) : Prop where
  state : done.bank[i]? = some (after step s inputs)
  emitted : column i done.emitted = outputs step s inputs

/-- One more row in front. -/
theorem Saw.cons {later : Outcome State (List Output)} {i : Nat} {s : State}
    {rest : List Input} (saw : Saw step later i (step s x).1 rest) (row : List Output)
    (hrow : row[i]? = some (step s x).2) :
    Saw step ⟨later.bank, row :: later.emitted, later.complete⟩ i s (x :: rest) := by
  refine ⟨saw.state, ?_⟩
  rw [column_cons, hrow, saw.emitted]
  rfl

/-- If nothing stops the bank, every machine sees every input. -/
theorem offerAll_of_quiet {inputs : List Input} (quiet : Quiet step stops bank inputs) :
    (offerAll step stops bank inputs).complete = true ∧
      (offerAll step stops bank inputs).bank = bank.map (after step · inputs) ∧
      ∀ i s, bank[i]? = some s → Saw step (offerAll step stops bank inputs) i s inputs := by
  induction inputs generalizing bank with
  | nil => exact ⟨rfl, (List.map_id bank).symm, fun i s hs => ⟨hs, rfl⟩⟩
  | cons x rest ih =>
    obtain ⟨hfirst, hrest⟩ := quiet_cons.mp quiet
    obtain ⟨hcomplete, hbank, hsaw⟩ := ih hrest
    rw [offerAll, offer_of_quiet hfirst]
    refine ⟨hcomplete, ?_, fun i s hs => ?_⟩
    · rw [if_pos rfl, hbank, List.map_map]
      rfl
    · exact (hsaw i _ (by rw [List.getElem?_map, hs]; rfl)).cons _
        (by rw [List.getElem?_map, hs]; rfl)

/-- If one stops, the machines up to it have seen the input, and those behind have not. -/
theorem offerAll_of_stopsAt {before : List Input} {p : Nat} (later : List Input)
    (hat : StopsAt step stops bank before x p) :
    (offerAll step stops bank (before ++ x :: later)).complete = false ∧
      ∀ i s, bank[i]? = some s → Saw step (offerAll step stops bank (before ++ x :: later)) i s
        (if i ≤ p then before ++ [x] else before) := by
  induction before generalizing bank with
  | nil =>
    obtain ⟨_, ⟨s, hs, hstop⟩, ahead⟩ := hat
    simp only [after_nil] at hstop ahead
    obtain ⟨hcomplete, hplaces⟩ := offer_of_stop ahead hs hstop
    rw [List.nil_append, offerAll, hcomplete]
    refine ⟨rfl, fun i t ht => ?_⟩
    obtain ⟨hbank, hemitted⟩ := hplaces i t ht
    by_cases hi : i ≤ p
    · rw [if_pos hi] at hbank hemitted ⊢
      exact ⟨hbank, by rw [if_neg Bool.false_ne_true, column_cons, hemitted]; rfl⟩
    · rw [if_neg hi] at hbank hemitted ⊢
      exact ⟨hbank, by rw [if_neg Bool.false_ne_true, column_cons, hemitted]; rfl⟩
  | cons y before ih =>
    obtain ⟨hfirst, hrest⟩ := stopsAt_cons.mp hat
    obtain ⟨hcomplete, hsaw⟩ := ih hrest
    rw [List.cons_append, offerAll, offer_of_quiet hfirst]
    refine ⟨hcomplete, fun i s hs => ?_⟩
    have hnext := (hsaw i _ (by rw [List.getElem?_map, hs]; rfl)).cons
      (bank.map fun s => (step s y).2) (by rw [List.getElem?_map, hs]; rfl)
    split at hnext
    · next h => rwa [if_pos h]
    · next h => rwa [if_neg h]

/-- A bank stops or it does not, and it does not if it is quiet. -/
theorem offerAll_complete_iff {inputs : List Input} :
    (offerAll step stops bank inputs).complete = true ↔ Quiet step stops bank inputs := by
  constructor
  · intro hcomplete
    rcases quiet_or_stopsAt bank inputs with quiet | ⟨before, x, later, p, rfl, hat⟩
    · exact quiet
    · rw [(offerAll_of_stopsAt _ hat).1] at hcomplete
      cases hcomplete
  · exact fun quiet => (offerAll_of_quiet quiet).1

/-- Whatever is put out for one input is what a machine of the bank makes of it. -/
theorem mem_offer_emitted {out : Output} (mem : out ∈ (offer step stops x bank).emitted) :
    ∃ s ∈ bank, out = (step s x).2 := by
  induction bank with
  | nil => exact absurd mem List.not_mem_nil
  | cons s rest ih =>
    rw [offer] at mem
    cases hs : stops (step s x).2 with
    | true =>
      rw [hs] at mem
      exact ⟨s, List.mem_cons_self, List.mem_singleton.mp mem⟩
    | false =>
      rw [hs] at mem
      rcases List.mem_cons.mp mem with rfl | mem
      · exact ⟨s, List.mem_cons_self, rfl⟩
      · obtain ⟨t, ht, hout⟩ := ih mem
        exact ⟨t, List.mem_cons_of_mem _ ht, hout⟩

/-- Every output of a run is one that a machine of the bank makes by itself. -/
theorem mem_offerAll_emitted {inputs : List Input} {row : List Output} {out : Output}
    (hrow : row ∈ (offerAll step stops bank inputs).emitted) (mem : out ∈ row) :
    ∃ s ∈ bank, out ∈ outputs step s inputs := by
  induction inputs generalizing bank with
  | nil => exact absurd hrow List.not_mem_nil
  | cons x rest ih =>
    have hfirst : row = (offer step stops x bank).emitted →
        ∃ s ∈ bank, out ∈ outputs step s (x :: rest) := by
      rintro rfl
      obtain ⟨s, hs, rfl⟩ := mem_offer_emitted mem
      exact ⟨s, hs, List.mem_cons_self⟩
    rw [offerAll] at hrow
    rcases quiet_or_first bank x with quiet | ⟨p, s, hs, hstop, ahead⟩
    · rw [offer_of_quiet quiet, if_pos rfl] at hrow
      rcases List.mem_cons.mp hrow with hrow | hrow
      · exact hfirst (by rw [hrow, offer_of_quiet quiet])
      · obtain ⟨t, ht, hout⟩ := ih hrow
        obtain ⟨s, hs, rfl⟩ := List.mem_map.mp ht
        exact ⟨s, hs, List.mem_cons_of_mem _ hout⟩
    · rw [(offer_of_stop ahead hs hstop).1] at hrow
      exact hfirst (List.mem_singleton.mp hrow)

/-- A loop inside a loop is one loop: the second batch comes if the first has not stopped. -/
theorem offerAll_append (bank : List State) (xs ys : List Input) :
    offerAll step stops bank (xs ++ ys) =
      if (offerAll step stops bank xs).complete then
        ⟨(offerAll step stops (offerAll step stops bank xs).bank ys).bank,
          (offerAll step stops bank xs).emitted ++
            (offerAll step stops (offerAll step stops bank xs).bank ys).emitted,
          (offerAll step stops (offerAll step stops bank xs).bank ys).complete⟩
      else offerAll step stops bank xs := by
  induction xs generalizing bank with
  | nil => rfl
  | cons x rest ih =>
    rw [List.cons_append, offerAll, offerAll]
    cases hfirst : (offer step stops x bank).complete with
    | false => rfl
    | true =>
      simp only [if_true, ih]
      cases hrest : (offerAll step stops (offer step stops x bank).bank rest).complete with
      | false => simp only [hrest, Bool.false_eq_true, if_false]
      | true => simp only [if_true, List.cons_append]

section Embed
variable {State' : Type*} {Input' : Type*} {Output' : Type*}
  {step : State → Input → State × Output} {step' : State' → Input' → State' × Output'}

/-- A machine that runs inside another one: its states and outputs are wrapped, and it gets
a part of the inputs. -/
structure Embeds (step : State → Input → State × Output)
    (step' : State' → Input' → State' × Output') (wrap : State → State') (part : Input' → Input)
    (shown : Input' → Output → Output') : Prop where
  step_eq : ∀ s x, step' (wrap s) x =
    (wrap (step s (part x)).1, shown x (step s (part x)).2)

variable {wrap : State → State'} {part : Input' → Input} {shown : Input' → Output → Output'}

theorem Embeds.after_eq (embeds : Embeds step step' wrap part shown) (s : State)
    (inputs : List Input') :
    after step' (wrap s) inputs = wrap (after step s (inputs.map part)) := by
  induction inputs generalizing s with
  | nil => rfl
  | cons x rest ih => rw [after_cons, embeds.step_eq, ih, List.map_cons, after_cons]

end Embed

end Watchtower.Bank
