import Mathlib.Data.List.Induction

/-!
# Runs of a deterministic machine with outputs

A machine is its step function: it takes a state and one input to the next state
and one output. Runs are finite and read from the left. What is said of a run is said
of its positions: a past, one input and the rest.
-/

namespace Watchtower.Machine

universe u v w
variable {State : Type u} {Input : Type v} {Output : Type w}
variable (step : State → Input → State × Output)

/-- The state reached from `s` once the inputs are read. -/
def after (s : State) (inputs : List Input) : State :=
  inputs.foldl (fun s x => (step s x).1) s

/-- One output for each input, in order. -/
def outputs : State → List Input → List Output
  | _, [] => []
  | s, x :: rest => (step s x).2 :: outputs (step s x).1 rest

/-- Every input paired with the output it produced. -/
def trace (s : State) (inputs : List Input) : List (Input × Output) :=
  inputs.zip (outputs step s inputs)

@[simp] theorem after_nil (s : State) : after step s [] = s := rfl

@[simp] theorem after_cons (s : State) (x : Input) (rest : List Input) :
    after step s (x :: rest) = after step (step s x).1 rest := rfl

theorem after_append (s : State) (xs ys : List Input) :
    after step s (xs ++ ys) = after step (after step s xs) ys :=
  List.foldl_append

theorem after_concat (s : State) (xs : List Input) (x : Input) :
    after step s (xs ++ [x]) = (step (after step s xs) x).1 := by
  rw [after_append, after_cons, after_nil]

@[simp] theorem outputs_nil (s : State) : outputs step s [] = [] := rfl

@[simp] theorem outputs_cons (s : State) (x : Input) (rest : List Input) :
    outputs step s (x :: rest) = (step s x).2 :: outputs step (step s x).1 rest := rfl

theorem outputs_append (s : State) (xs ys : List Input) :
    outputs step s (xs ++ ys) = outputs step s xs ++ outputs step (after step s xs) ys := by
  induction xs generalizing s with
  | nil => rfl
  | cons x rest ih => simp only [List.cons_append, outputs_cons, after_cons, ih]

theorem outputs_concat (s : State) (xs : List Input) (x : Input) :
    outputs step s (xs ++ [x]) = outputs step s xs ++ [(step (after step s xs) x).2] := by
  rw [outputs_append, outputs_cons, outputs_nil]

/-- An output of a run is that of one step from the state its past leads to. -/
theorem mem_outputs {s : State} {inputs : List Input} {out : Output} :
    out ∈ outputs step s inputs ↔ ∃ past x later, inputs = past ++ x :: later ∧
      out = (step (after step s past) x).2 := by
  constructor
  · intro h
    induction inputs generalizing s with
    | nil => cases h
    | cons y rest ih =>
      rcases List.mem_cons.mp h with rfl | h
      · exact ⟨[], y, rest, rfl, rfl⟩
      · obtain ⟨past, x, later, rfl, hout⟩ := ih h
        exact ⟨y :: past, x, later, rfl, hout⟩
  · rintro ⟨past, x, later, rfl, rfl⟩
    rw [outputs_append, outputs_cons]
    exact List.mem_append_right _ List.mem_cons_self

@[simp] theorem trace_nil (s : State) : trace step s [] = [] := rfl

@[simp] theorem trace_cons (s : State) (x : Input) (rest : List Input) :
    trace step s (x :: rest) = (x, (step s x).2) :: trace step (step s x).1 rest := rfl

theorem trace_append (s : State) (xs ys : List Input) :
    trace step s (xs ++ ys) = trace step s xs ++ trace step (after step s xs) ys := by
  induction xs generalizing s with
  | nil => rfl
  | cons x rest ih => simp only [List.cons_append, trace_cons, after_cons, ih]

theorem trace_concat (s : State) (xs : List Input) (x : Input) :
    trace step s (xs ++ [x]) = trace step s xs ++ [(x, (step (after step s xs) x).2)] := by
  rw [trace_append, trace_cons, trace_nil]

theorem map_fst_trace (s : State) (inputs : List Input) :
    (trace step s inputs).map Prod.fst = inputs := by
  induction inputs generalizing s with
  | nil => rfl
  | cons x rest ih => rw [trace_cons, List.map_cons, ih]

/-- Each position of a trace is one step from the state its past leads to. -/
theorem trace_split {s : State} {inputs : List Input} {past later : List (Input × Output)}
    {x : Input} {out : Output} (h : trace step s inputs = past ++ (x, out) :: later) :
    ∃ xs ys, inputs = xs ++ x :: ys ∧ past = trace step s xs ∧
      out = (step (after step s xs) x).2 ∧
      later = trace step (step (after step s xs) x).1 ys := by
  induction past generalizing s inputs with
  | nil =>
    cases inputs with
    | nil => simp at h
    | cons y ys =>
      simp only [trace_cons, List.nil_append, List.cons.injEq, Prod.mk.injEq] at h
      obtain ⟨⟨rfl, hout⟩, hlater⟩ := h
      exact ⟨[], ys, rfl, rfl, hout.symm, hlater.symm⟩
  | cons p past ih =>
    cases inputs with
    | nil => simp at h
    | cons y ys =>
      simp only [trace_cons, List.cons_append, List.cons.injEq] at h
      obtain ⟨hp, hrest⟩ := h
      obtain ⟨xs, zs, hys, hpast, hout, hlater⟩ := ih hrest
      refine ⟨y :: xs, zs, by rw [hys, List.cons_append], ?_, hout, hlater⟩
      rw [trace_cons, ← hp, hpast]

/-- The entries of a trace are the steps of its run. -/
theorem mem_trace {s : State} {inputs : List Input} {entry : Input × Output} :
    entry ∈ trace step s inputs ↔ ∃ past x later, inputs = past ++ x :: later ∧
      entry = (x, (step (after step s past) x).2) := by
  constructor
  · intro mem
    obtain ⟨past, later, h⟩ := List.append_of_mem mem
    obtain ⟨xs, ys, hinputs, _, hout, _⟩ := trace_split step h
    exact ⟨xs, entry.1, ys, hinputs, Prod.ext rfl hout⟩
  · rintro ⟨past, x, later, rfl, rfl⟩
    rw [trace_append, trace_cons]
    exact List.mem_append_right _ List.mem_cons_self

/-- What holds at every position of a run holds at those of its past and at the last. -/
theorem forall_split_concat {P : List Input → Input → Prop} {xs : List Input} {y : Input} :
    (∀ past x later, xs ++ [y] = past ++ x :: later → P past x) ↔
      (∀ past x later, xs = past ++ x :: later → P past x) ∧ P xs y := by
  constructor
  · intro h
    refine ⟨fun past x later heq => h past x (later ++ [y]) ?_, h xs y [] rfl⟩
    rw [heq, List.append_assoc, List.cons_append]
  · rintro ⟨hpast, hlast⟩ past x later heq
    rcases List.eq_nil_or_concat later with rfl | ⟨before, z, rfl⟩
    · obtain ⟨rfl, hy⟩ := List.append_inj' heq rfl
      obtain rfl := List.singleton_inj.mp hy
      exact hlast
    · rw [List.concat_eq_append, ← List.cons_append, ← List.append_assoc] at heq
      exact hpast past x before (List.append_inj' heq rfl).1

/-- An invariant of the step holds after every run. -/
theorem after_invariant {P : State → Prop} {s : State} (init : P s)
    (preserved : ∀ s x, P s → P (step s x).1) (inputs : List Input) :
    P (after step s inputs) := by
  induction inputs generalizing s with
  | nil => exact init
  | cons x rest ih => exact ih (preserved s x init)

section Actions
variable {Action : Type w} (Step : State → Action → State → Prop) (start : State)

/-- A run of a relation: each state passed with the action taken there, and the state
reached. -/
inductive Run : List (State × Action) → State → Prop where
  | start : Run [] start
  | take {log : List (State × Action)} {s s' : State} {a : Action} : Run log s →
      Step s a s' → Run (log ++ [(s, a)]) s'

/-- The states of a run: those passed and the last. -/
def Visits (log : List (State × Action)) (s t : State) : Prop := t = s ∨ ∃ a, (t, a) ∈ log

variable {Step start}

/-- What every allowed action preserves holds all along a run of allowed actions. -/
theorem Run.invariant {P : State → Prop} {Allowed : State → Action → Prop} (init : P start)
    (preserved : ∀ s a s', Step s a s' → Allowed s a → P s → P s')
    {log : List (State × Action)} {s : State} (run : Run Step start log s)
    (allowed : ∀ entry ∈ log, Allowed entry.1 entry.2) : ∀ t, Visits log s t → P t := by
  have hboth : P s ∧ ∀ entry ∈ log, P entry.1 := by
    induction run with
    | start => exact ⟨init, fun entry mem => absurd mem List.not_mem_nil⟩
    | take run step ih =>
      simp only [List.forall_mem_append, List.forall_mem_singleton] at allowed ⊢
      obtain ⟨hlast, hpast⟩ := ih allowed.1
      exact ⟨preserved _ _ _ step allowed.2 hlast, hpast, hlast⟩
  rintro t (rfl | ⟨a, mem⟩)
  · exact hboth.1
  · exact hboth.2 _ mem

/-- Each action of a run is a step from a state of the run into a state of the run. -/
theorem Run.step_of_mem {log : List (State × Action)} {s t : State} {a : Action}
    (run : Run Step start log s) (mem : (t, a) ∈ log) : ∃ t', Step t a t' ∧ Visits log s t' := by
  induction run with
  | start => exact absurd mem List.not_mem_nil
  | take run step ih =>
    rcases List.mem_append.mp mem with mem | mem
    · obtain ⟨t', hstep, rfl | ⟨next, later⟩⟩ := ih mem
      · exact ⟨_, hstep, .inr ⟨_, List.mem_append_right _ (List.mem_singleton_self _)⟩⟩
      · exact ⟨t', hstep, .inr ⟨next, List.mem_append_left _ later⟩⟩
    · obtain ⟨rfl, rfl⟩ := Prod.mk.inj (List.mem_singleton.mp mem)
      exact ⟨_, step, .inl rfl⟩

end Actions

end Watchtower.Machine
