import Mathlib.Data.Finset.Insert
import StyleBatch.Proofs.Way

/-!
# Tangles

A task waits for a task that another way has led to: a source for the key of one of its imports, a
key for its location (`Way.Waits`).  A `Tangle` is a set of open ways with one way to each end,
in which every way has one to wait for.  The guards look along one way only, so they do not see
a wait that leads from way to way and comes back.
-/

namespace StyleBatch

variable (lib : Library) (loads : List Load)

namespace Way

/-- What the end of a way can wait for: a source for a key that it imports, a key for its
location, unless the way itself leads through it. -/
def Waits (w : Way) : Way → Prop
  | load _ => False
  | key _ i' => ∃ i, w.Asks lib loads i ∧ i.key = i'.key ∧ i.key.text ∉ w.ancestry loads
  | location _ l => w.Finds lib loads l

end Way

/-- Open ways with all that is on them, one to each end, each of which waits for one of them. -/
structure Tangle (ways : Finset Way) : Prop where
  isOpen : ∀ w ∈ ways, w.Open lib loads
  of_key : ∀ w i, Way.key w i ∈ ways → w ∈ ways
  of_location : ∀ w l, Way.location w l ∈ ways → w ∈ ways
  eq_of_node : ∀ w ∈ ways, ∀ w' ∈ ways, w.node = w'.node → w = w'
  waits : ∀ w ∈ ways, ∃ w' ∈ ways, w.Waits lib loads w'

end StyleBatch
