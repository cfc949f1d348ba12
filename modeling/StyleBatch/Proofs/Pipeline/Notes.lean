import Mathlib.Data.List.Perm.Subperm
import StyleBatch.Batch

/-!
# What happens to batches, noted down

A run of a pipeline leaves notes: which load joined which epoch, who left with what and whether it
took the batch along, which source was compiled and what came of it.  Everything that is said
about batches is said in terms of these notes.

* `Notes.joinCount`: how many loads have joined and not left.
* `Notes.StillOpen`: the join-count has not been zero since the current epoch was opened.
* `Notes.handedIn`: what the members of an epoch brought, in the order in which they left.
* `Notes.handedOver`: the batches that were taken along.
* `Ledger`: the notes and the counts of the batch agree.
-/

namespace StyleBatch

/-- Something that happened to the load numbered `i`. -/
inductive Note where
  /-- It was answered empty and joined nothing. -/
  | deferred (i : Nat)
  | joined (i epoch : Nat)
  /-- It left with a contribution, and with the batch if it was the last one. -/
  | left (i : Nat) (contribution : Contribution) (closed : Option ClosedBatch)
  /-- It called the compiler on a source. -/
  | called (i : Nat) (source : Text)
  | answered (i : Nat) (source : Text) (answer : Except Fault Report)
deriving DecidableEq

namespace Contribution

/-- What a contribution adds to the batch. -/
def text : Contribution → Text
  | source t => t
  | failure _ => []

/-- What leaving with a contribution takes along, and what it leaves behind. -/
def leave (contribution : Contribution) (b : Batch) : Option ClosedBatch × Batch :=
  { b with buffer := b.buffer ++ contribution.text }.leave

end Contribution

/-- The batch after a load has joined. -/
def Batch.join (b : Batch) : Batch :=
  if b.outstanding = 0 then { b with epoch := b.epoch + 1, members := 1, outstanding := 1 }
  else { b with members := b.members + 1, outstanding := b.outstanding + 1 }

namespace Notes

/-- Who has joined an epoch, in the order of joining. -/
def joiners (notes : List Note) : List Nat :=
  notes.filterMap fun
    | .joined i _ => some i
    | _ => none

def joinersOf (epoch : Nat) (notes : List Note) : List Nat :=
  notes.filterMap fun
    | .joined i e => if e = epoch then some i else none
    | _ => none

/-- Who has left, in the order of leaving. -/
def leavers (notes : List Note) : List Nat :=
  notes.filterMap fun
    | .left i _ _ => some i
    | _ => none

/-- How many loads have joined and not left. -/
def joinCount (notes : List Note) : Nat :=
  (joiners notes).length - (leavers notes).length

/-- The epochs that were joined, one for each joining. -/
def epochs (notes : List Note) : List Nat :=
  notes.filterMap fun
    | .joined _ e => some e
    | _ => none

/-- The epoch that was joined last; zero before the first one. -/
def epoch (notes : List Note) : Nat :=
  (epochs notes).getLastD 0

/-- The join-count has not been zero since the current epoch was opened. -/
def StillOpen (notes : List Note) : Prop :=
  ∃ early i late, notes = early ++ .joined i (epoch notes) :: late ∧ epoch notes ∉ epochs early ∧
    ∀ now, now <+: late → joinCount (early ++ .joined i (epoch notes) :: now) ≠ 0

/-- The sources with which members of an epoch left, in the order of leaving. -/
def handedIn (epoch : Nat) (notes : List Note) : Text :=
  notes.flatMap fun
    | .left i (.source t) _ => if .joined i epoch ∈ notes then t else []
    | _ => []

/-- The batches that members took along, in the order of leaving. -/
def handedOver (notes : List Note) : List ClosedBatch :=
  notes.filterMap fun
    | .left _ _ closed => closed
    | _ => none

/-- The load numbered `i` had the source compiled, and the compiler gave the text. -/
def Compiled (notes : List Note) (i : Nat) (source t : Text) : Prop :=
  .called i source ∈ notes ∧
    ∃ report, .answered i source (.ok report) ∈ notes ∧ report.isFailure = false ∧ report.text = t

variable {notes : List Note} {i e : Nat}

theorem mem_joiners : i ∈ joiners notes ↔ ∃ e, .joined i e ∈ notes := by
  rw [joiners, List.mem_filterMap]
  constructor
  · rintro ⟨note, hnote, hi⟩
    split at hi <;> cases hi
    exact ⟨_, hnote⟩
  · rintro ⟨e, hnote⟩
    exact ⟨_, hnote, rfl⟩

theorem mem_joinersOf : i ∈ joinersOf e notes ↔ .joined i e ∈ notes := by
  rw [joinersOf, List.mem_filterMap]
  constructor
  · rintro ⟨note, hnote, hi⟩
    split at hi
    · split at hi <;> cases hi
      rename_i heq
      exact heq ▸ hnote
    · cases hi
  · intro hnote
    exact ⟨_, hnote, if_pos rfl⟩

theorem mem_leavers : i ∈ leavers notes ↔ ∃ c closed, .left i c closed ∈ notes := by
  rw [leavers, List.mem_filterMap]
  constructor
  · rintro ⟨note, hnote, hi⟩
    split at hi <;> cases hi
    exact ⟨_, _, hnote⟩
  · rintro ⟨c, closed, hnote⟩
    exact ⟨_, hnote, rfl⟩

theorem mem_epochs : e ∈ epochs notes ↔ ∃ i, .joined i e ∈ notes := by
  rw [epochs, List.mem_filterMap]
  constructor
  · rintro ⟨note, hnote, hi⟩
    split at hi <;> cases hi
    exact ⟨_, hnote⟩
  · rintro ⟨i, hnote⟩
    exact ⟨_, hnote, rfl⟩

theorem mem_handedOver {b : ClosedBatch} :
    b ∈ handedOver notes ↔ ∃ i c, .left i c (some b) ∈ notes := by
  rw [handedOver, List.mem_filterMap]
  constructor
  · rintro ⟨note, hnote, hb⟩
    split at hb
    · subst hb
      exact ⟨_, _, hnote⟩
    · cases hb
  · rintro ⟨i, c, hnote⟩
    exact ⟨_, hnote, rfl⟩

/-! ## One note more -/

section Append

variable (notes) (more : List Note)

theorem joiners_append : joiners (notes ++ more) = joiners notes ++ joiners more :=
  List.filterMap_append

theorem joinersOf_append : joinersOf e (notes ++ more) = joinersOf e notes ++ joinersOf e more :=
  List.filterMap_append

theorem leavers_append : leavers (notes ++ more) = leavers notes ++ leavers more :=
  List.filterMap_append

theorem epochs_append : epochs (notes ++ more) = epochs notes ++ epochs more :=
  List.filterMap_append

theorem handedOver_append : handedOver (notes ++ more) = handedOver notes ++ handedOver more :=
  List.filterMap_append

theorem epoch_joined (i e : Nat) : epoch (notes ++ [.joined i e]) = e := by
  rw [epoch, epochs_append]
  exact List.getLastD_concat ..

end Append

/-- Notes that are about neither joining nor leaving. -/
def Idle : Note → Prop
  | .joined .. => False
  | .left .. => False
  | _ => True

theorem epoch_of_not_joined {more : List Note} (h : epochs more = []) :
    epoch (notes ++ more) = epoch notes := by
  rw [epoch, epochs_append, h, List.append_nil, epoch]

/-- What is handed in does not change when nobody joins who has left before. -/
theorem handedIn_append {more : List Note} (h : ∀ i ∈ leavers notes, .joined i e ∉ more) :
    handedIn e (notes ++ more) = handedIn e notes ++ more.flatMap (fun
      | .left i (.source t) _ => if .joined i e ∈ notes ++ more then t else []
      | _ => []) := by
  rw [handedIn, List.flatMap_append]
  congr 1
  refine List.flatMap_congr fun note hnote => ?_
  split
  · rename_i i t closed
    have hi : .joined i e ∉ more := h i (mem_leavers.mpr ⟨_, _, hnote⟩)
    simp [hi]
  · rfl

theorem joinCount_left {c : Contribution} {closed : Option ClosedBatch} :
    joinCount (notes ++ [.left i c closed]) = joinCount notes - 1 := by
  rw [joinCount, joinCount, joiners_append, leavers_append]
  simp only [joiners, leavers, List.filterMap_cons, List.filterMap_nil, List.append_nil,
    List.length_append, List.length_singleton]
  omega

/-- The current epoch stays open as long as somebody is in. -/
theorem StillOpen.append (h : StillOpen notes) {note : Note}
    (hepoch : epoch (notes ++ [note]) = epoch notes) (hcount : joinCount (notes ++ [note]) ≠ 0) :
    StillOpen (notes ++ [note]) := by
  obtain ⟨early, i, late, heq, hnot, hopen⟩ := h
  refine ⟨early, i, late ++ [note], ?_, hepoch ▸ hnot, fun now hnow => ?_⟩
  · rw [hepoch, ← List.cons_append, ← List.append_assoc, ← heq]
  · rw [hepoch]
    rcases List.prefix_concat_iff.mp hnow with rfl | hnow
    · rw [← List.cons_append, ← List.append_assoc, ← heq]
      exact hcount
    · exact hopen now hnow

theorem StillOpen.joinCount_ne_zero (h : StillOpen notes) : joinCount notes ≠ 0 := by
  obtain ⟨early, i, late, heq, -, hopen⟩ := h
  rw [heq]
  exact hopen late List.prefix_rfl

end Notes

end StyleBatch
