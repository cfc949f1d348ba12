import Mathlib.Data.List.Induction
import StyleBatch.Proofs.Library
import StyleBatch.Proofs.Polling
import StyleBatch.Proofs.Resolution.View

/-!
# Runs of a resolution

A poll steps a task that can move: one that is ready, or asleep for this poll.  `Reached lib
loads r` says that `r` comes about over the library `lib` from nothing, by submitting the
loads in their order, beginning each of them once, at any time, and polling whatever can move.
Between two polls others may write to the log and to the disk, if the loader goes on finding
the same.  Delays of loads and pauses of the loader are polls left out.

* `Reached.settle`: sweeping tasks until nothing moves is one of the runs.
* `reached_play`: so is submitting and beginning all loads and then sweeping them.
-/

namespace StyleBatch

namespace Resolution

/-- A task that a poll steps. -/
abbrev CanStep (r : Resolution) (task : Task) : Prop :=
  machine.CanStep r task

/-- The states that come about over a library after the loads were submitted. -/
inductive Reached (lib : Library) : List Load → Resolution → Prop
  | start : Reached lib [] (Resolution.start lib.loader lib.extension lib.disk)
  | submit {loads : List Load} {r : Resolution} (load : Load) :
      Reached lib loads r → Reached lib (loads ++ [load]) (r.addLoad load)
  | begin {loads : List Load} {r : Resolution} (n : Nat) :
      Reached lib loads r → n < loads.length → (∀ x ∈ r.inlinings, x.load ≠ n) →
      Reached lib loads (r.begin n)
  | poll {loads : List Load} {r : Resolution} {task : Task} :
      Reached lib loads r → CanStep r task → Reached lib loads (step task r)
  | elsewhere {loads : List Load} {r : Resolution} (world : World) :
      Reached lib loads r → lib.SameOn world.disk → Reached lib loads { r with world }

/-- Sweeping the tasks as the schedule does it is a run. -/
theorem Reached.settle {lib : Library} {loads : List Load} {r : Resolution}
    (h : Reached lib loads r) (fuel rounds : Nat) (roots : List Task) :
    Reached lib loads (machine.settle fuel roots rounds r) :=
  Machine.settle_keeps (P := Reached lib loads) (fun _ _ h hcan => h.poll hcan) fuel roots rounds r h

/-! ## All loads at once -/

section Play

variable (lib : Library) (loads : List Load)

/-- The loads submitted and begun in their order. -/
def begun : Resolution :=
  { Resolution.start lib.loader lib.extension lib.disk with
    loads, inlinings := (List.range loads.length).map fun n => ⟨n, .queued⟩ }

/-- The loads swept until nothing moves, in at most `fuel` rounds of that depth. -/
def play (fuel : Nat) : Resolution :=
  machine.settle fuel (.disk :: (List.range loads.length).map fun n => .source (.inlining n)) fuel
    (begun lib loads)

/-- What submitting keeps, holds of the loads submitted in their order. -/
theorem submitted_keeps {P : List Load → Resolution → Prop}
    (hstart : P [] (Resolution.start lib.loader lib.extension lib.disk))
    (hsubmit : ∀ loads r load, P loads r → P (loads ++ [load]) (r.addLoad load)) :
    P loads { Resolution.start lib.loader lib.extension lib.disk with loads } := by
  induction loads using List.reverseRecOn with
  | nil => exact hstart
  | append_singleton loads load ih => exact hsubmit _ _ load ih

/-- What submitting and beginning keep, holds when all loads have begun. -/
theorem begun_keeps {P : List Load → Resolution → Prop}
    (hstart : P [] (Resolution.start lib.loader lib.extension lib.disk))
    (hsubmit : ∀ loads r load, P loads r → P (loads ++ [load]) (r.addLoad load))
    (hbegin : ∀ loads r n, P loads r → n < loads.length → (∀ x ∈ r.inlinings, x.load ≠ n) →
      P loads (r.begin n)) : P loads (begun lib loads) := by
  have hbegun : ∀ k ≤ loads.length, P loads
      { Resolution.start lib.loader lib.extension lib.disk with
        loads, inlinings := (List.range k).map fun n => ⟨n, .queued⟩ } := by
    intro k hk
    induction k with
    | zero => exact submitted_keeps lib loads hstart hsubmit
    | succ k ih =>
      rw [List.range_succ, List.map_append]
      refine hbegin _ _ k (ih (by omega)) (by omega) fun x hx => ?_
      obtain ⟨n, hn, rfl⟩ := List.mem_map.mp hx
      exact (List.mem_range.mp hn).ne
  exact hbegun loads.length le_rfl

theorem reached_submitted : Reached lib loads
    { Resolution.start lib.loader lib.extension lib.disk with loads } :=
  submitted_keeps lib loads .start fun _ _ load h => h.submit load

theorem reached_begun : Reached lib loads (begun lib loads) :=
  begun_keeps lib loads .start (fun _ _ load h => h.submit load) fun _ _ n h => h.begin n

theorem reached_play (fuel : Nat) : Reached lib loads (play lib loads fuel) :=
  (reached_begun lib loads).settle fuel fuel _

end Play

/-- One load with one import. -/
def smallLibrary : Library where
  loader := .memory [("s/_a.scss", "x")] [] none 0
  extension := "scss"
  disk := ⟨[], []⟩

def smallLoads : List Load :=
  [⟨"s/x", "@import \"a\";", []⟩]

/-- Three files: the first one imports the second one, and so does the third one, which imports a
file that is not there, too. -/
def branchedLibrary : Library where
  loader := .memory [("s/_a.scss", "@import \"b\";x"), ("s/_b.scss", "y"),
    ("s/_c.scss", "@import \"b\";@import \"d\";")] [] none 1
  extension := "scss"
  disk := ⟨[], []⟩

end Resolution

end StyleBatch
