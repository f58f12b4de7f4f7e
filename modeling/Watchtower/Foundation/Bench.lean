import Watchtower.Foundation.Bank

/-!
# Banks, machine by machine

A bank that is found anywhere in its inputs: some of the machines may have had the input of
the moment, and others not. Taking the steps one at a time leads to what the bank makes of
its inputs at once.
-/

namespace Watchtower.Bank

universe u v w
variable {State : Type u} {Input : Type v} {Output : Type w}

/-- An input on its way through the bank, what it has led to, and who has yet to see it. -/
structure Turn (State : Type u) (Input : Type v) (Output : Type w) where
  input : Input
  emitted : List Output
  waiting : List State

/-- The machines in front of the turn, the turn, the rows of the inputs before it, and
whether an output has stopped everything. -/
structure Bench (State : Type u) (Input : Type v) (Output : Type w) where
  front : List State
  turn : Option (Turn State Input Output)
  rows : List (List Output)
  stopped : Bool

namespace Bench

def idle (bank : List State) : Bench State Input Output := ⟨bank, none, [], false⟩

/-- An input comes to the first machine. -/
def take (b : Bench State Input Output) (x : Input) : Bench State Input Output :=
  { b with front := [], turn := some ⟨x, [], b.front⟩ }

/-- The number of machines. -/
def size (b : Bench State Input Output) : Nat :=
  b.front.length + (b.turn.elim 0 fun t => t.waiting.length)

/-- The steps that are left to the turn. -/
def work (b : Bench State Input Output) : Nat :=
  b.turn.elim 0 fun t => t.waiting.length + 1

end Bench

variable (step : State → Input → State × Output) (stops : Output → Bool)

/-- One step of a turn. -/
inductive Moves : Bench State Input Output → Bench State Input Output → Prop where
  | passed {front waiting : List State} {s : State} {x : Input} {emitted : List Output}
      {rows : List (List Output)} (quiet : stops (step s x).2 = false) :
      Moves ⟨front, some ⟨x, emitted, s :: waiting⟩, rows, false⟩
        ⟨front ++ [(step s x).1], some ⟨x, emitted ++ [(step s x).2], waiting⟩, rows, false⟩
  | halted {front waiting : List State} {s : State} {x : Input} {emitted : List Output}
      {rows : List (List Output)} (loud : stops (step s x).2 = true) :
      Moves ⟨front, some ⟨x, emitted, s :: waiting⟩, rows, false⟩
        ⟨front ++ (step s x).1 :: waiting, none, rows ++ [emitted ++ [(step s x).2]], true⟩
  | ended {front : List State} {x : Input} {emitted : List Output}
      {rows : List (List Output)} :
      Moves ⟨front, some ⟨x, emitted, []⟩, rows, false⟩
        ⟨front, none, rows ++ [emitted], false⟩

/-- What comes of a bench once its turn and the inputs that are left have gone through. -/
def Bench.finish (b : Bench State Input Output) (left : List Input) :
    Outcome State (List Output) :=
  if b.stopped then ⟨b.front, b.rows, false⟩
  else
    match b.turn with
    | none =>
      let later := offerAll step stops b.front left
      ⟨later.bank, b.rows ++ later.emitted, later.complete⟩
    | some t =>
      let done := offer step stops t.input t.waiting
      if done.complete then
        let later := offerAll step stops (b.front ++ done.bank) left
        ⟨later.bank, b.rows ++ (t.emitted ++ done.emitted) :: later.emitted, later.complete⟩
      else ⟨b.front ++ done.bank, b.rows ++ [t.emitted ++ done.emitted], false⟩

variable {step stops} {b b' : Bench State Input Output}

theorem Moves.under (moves : Moves step stops b b') : b.turn ≠ none := by
  cases moves with
  | passed quiet => exact Option.some_ne_none _
  | halted loud => exact Option.some_ne_none _
  | ended => exact Option.some_ne_none _

theorem Moves.settled (moves : Moves step stops b b') (dead : b'.stopped = true) :
    b'.turn = none := by
  cases moves with
  | passed quiet => cases dead
  | halted loud => rfl
  | ended => rfl

theorem Moves.size_eq (moves : Moves step stops b b') : b'.size = b.size := by
  cases moves with
  | passed quiet =>
    simp only [Bench.size, Option.elim_some, List.length_append, List.length_cons,
      List.length_nil]
    omega
  | halted loud =>
    simp only [Bench.size, Option.elim_some, Option.elim_none, List.length_append,
      List.length_cons]
    omega
  | ended => rfl

theorem Moves.work_lt (moves : Moves step stops b b') : b'.work < b.work := by
  cases moves with
  | passed quiet => exact Nat.lt_succ_self _
  | halted loud => exact Nat.succ_pos _
  | ended => exact Nat.succ_pos _

/-- As long as a turn is under way, it has a step. -/
theorem exists_moves (alive : b.stopped = false) {t : Turn State Input Output}
    (under : b.turn = some t) : ∃ b', Moves step stops b b' := by
  obtain ⟨front, turn, rows, stopped⟩ := b
  obtain rfl : stopped = false := alive
  obtain rfl : turn = some t := under
  obtain ⟨x, emitted, waiting⟩ := t
  cases waiting with
  | nil => exact ⟨_, .ended⟩
  | cons s waiting =>
    cases hs : stops (step s x).2 with
    | false => exact ⟨_, .passed hs⟩
    | true => exact ⟨_, .halted hs⟩

theorem take_size (idle : b.turn = none) (x : Input) : (b.take x).size = b.size := by
  simp only [Bench.size, Bench.take, idle, Option.elim_some, Option.elim_none, List.length_nil]
  omega

theorem take_work (x : Input) : (b.take x).work = b.front.length + 1 := rfl

theorem finish_idle (alive : b.stopped = false) (idle : b.turn = none) (left : List Input) :
    b.finish step stops left = ⟨(offerAll step stops b.front left).bank,
      b.rows ++ (offerAll step stops b.front left).emitted,
      (offerAll step stops b.front left).complete⟩ := by
  rw [Bench.finish, alive, if_neg Bool.false_ne_true, idle]

theorem finish_stopped (dead : b.stopped = true) (left : List Input) :
    b.finish step stops left = ⟨b.front, b.rows, false⟩ := by
  rw [Bench.finish, dead, if_pos rfl]

/-- The next input may come to the bench before it is finished, or be among what is left. -/
theorem finish_take (alive : b.stopped = false) (idle : b.turn = none) (x : Input)
    (left : List Input) :
    (b.take x).finish step stops left = b.finish step stops (x :: left) := by
  have htake : (b.take x).stopped = false := alive
  rw [finish_idle alive idle, Bench.finish, htake, if_neg Bool.false_ne_true, offerAll]
  simp only [Bench.take, List.nil_append]
  split
  · rfl
  · rfl

/-- No step of a turn changes what comes of the bench. -/
theorem Moves.finish_eq (moves : Moves step stops b b') (left : List Input) :
    b'.finish step stops left = b.finish step stops left := by
  cases moves with
  | passed quiet =>
    simp only [Bench.finish, offer, quiet, Bool.false_eq_true, if_false, List.append_assoc,
      List.singleton_append]
  | halted loud => simp only [Bench.finish, offer, loud, if_true, Bool.false_eq_true, if_false]
  | ended =>
    simp only [Bench.finish, offer, Bool.false_eq_true, if_false, if_true, List.append_nil,
      List.append_assoc, List.singleton_append]

/-- The rows that are there stay. -/
theorem rows_prefix_finish (left : List Input) :
    b.rows <+: (b.finish step stops left).emitted := by
  rw [Bench.finish]
  split
  · exact List.prefix_refl _
  · split
    · exact List.prefix_append _ _
    · dsimp only
      split
      · exact List.prefix_append _ _
      · exact List.prefix_append _ _

/-- More inputs for a bench that is finished with those before. -/
theorem finish_append (bank : List State) (past left : List Input) (alive : b.stopped = false)
    (idle : b.turn = none) (same : b.finish step stops [] = offerAll step stops bank past) :
    b.finish step stops left = offerAll step stops bank (past ++ left) := by
  rw [finish_idle alive idle] at same ⊢
  rw [offerAll_append, ← same]
  simp only [offerAll, if_true, List.append_nil]

end Watchtower.Bank
