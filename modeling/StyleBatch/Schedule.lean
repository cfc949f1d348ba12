/-!
# Polling

A system of tasks moves by steps, one task at a time. A task is settled, asleep for this
poll, ready for a step, or waiting for other tasks. A poll drives one task as far as it
goes: it steps the task while it is ready, polls whatever it waits for, and ends with a
step that finds it asleep. A task that is being polled already is not polled again.
-/

namespace StyleBatch

/-- Where a task stands. -/
inductive Standing (α : Type) where
  | settled
  | asleep
  | ready
  | waiting (on : List α)
deriving DecidableEq, Repr

/-- Tasks named by `α` that move a state in `σ`. -/
structure Machine (σ α : Type) where
  standing : σ → α → Standing α
  step : α → σ → σ

/-- A state together with the steps that led to it. -/
structure Turn (σ α : Type) where
  state : σ
  steps : List α

namespace Machine

variable {σ α : Type} (m : Machine σ α)

/-- One step on from a turn. -/
def advance (a : α) (t : Turn σ α) : Turn σ α :=
  ⟨m.step a t.state, t.steps ++ [a]⟩

variable [DecidableEq α]

/-- Polls the task `a` while the tasks in `busy` are being polled. -/
def poll : Nat → List α → α → Turn σ α → Turn σ α
  | 0, _, _, t => t
  | fuel + 1, busy, a, t =>
    match m.standing t.state a with
    | .settled => t
    | .asleep => m.advance a t
    | .ready => poll fuel busy a (m.advance a t)
    | .waiting on =>
      let t := on.foldl (fun t b => if b ∈ busy then t else poll fuel (b :: busy) b t) t
      match m.standing t.state a with
      | .waiting _ => t
      | _ => poll fuel busy a t

/-- Polls several tasks one after the other. -/
def sweep (fuel : Nat) (roots : List α) (s : σ) : Turn σ α :=
  roots.foldl (fun t a => m.poll fuel [a] a t) ⟨s, []⟩

/-- Sweeps until a sweep makes no step. -/
def settle (fuel : Nat) (roots : List α) : Nat → σ → σ
  | 0, s => s
  | rounds + 1, s =>
    let t := m.sweep fuel roots s
    if t.steps.isEmpty then t.state else settle fuel roots rounds t.state

end Machine

end StyleBatch
