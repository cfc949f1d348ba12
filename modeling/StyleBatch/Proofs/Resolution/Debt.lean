import StyleBatch.Proofs.Resolution.Settling
import StyleBatch.Proofs.Resolution.Total

/-!
# Who owes a placeholder

Every placeholder in the text of a load is owed by a task: by the branch whose import it stands
for, until the branch has started its key, then by the key's task, until that has started its
location, then by the location's task, until it puts its text there.  Whoever came second owes
the placeholder until it has cleared it.

* `debt`: all that is owed, as pairs of a load and a key.
* `Sound.not_mem_debt`: for a load that is settled nothing is owed.
-/

namespace StyleBatch

open Resolution

namespace Resolution

/-! ## Owing -/

def BranchPhase.owes : BranchPhase → Bool
  | .fresh => true
  | .reserved own => !own
  | .settled _ => false

def KeyPhase.owes : KeyPhase → Bool
  | .normalizing _ => true
  | .locating .. => true
  | .reserved _ own => !own
  | .settled _ => false

/-- One placeholder, if it is owed. -/
def owed (owes : Bool) (n : Nat) (k : Key) : Multiset (Nat × Key) :=
  if owes then {(n, k)} else 0

theorem mem_owed {owes : Bool} {n : Nat} {k : Key} {x : Nat × Key} :
    x ∈ owed owes n k ↔ owes = true ∧ x = (n, k) := by
  cases owes <;> simp [owed]

def Branch.debt (b : Branch) : Multiset (Nat × Key) :=
  owed b.phase.owes b.load b.target.key

/-- What the branches of a source owe. -/
def branchesDebt (bs : List Branch) : Multiset (Nat × Key) :=
  (bs.map Branch.debt).sum

def LocationTask.debt (t : LocationTask) : Multiset (Nat × Key) :=
  match t.phase with
  | .expanding _ bs => branchesDebt bs
  | .settled _ => 0
  | _ => {(t.load, t.key)}

def Inlining.debt (x : Inlining) : Multiset (Nat × Key) :=
  match x.phase with
  | .expanding bs => branchesDebt bs
  | _ => 0

/-- Tasks count for what they owe. -/
def debtWeight : Weight (Multiset (Nat × Key)) where
  key k t := owed t.phase.owes t.load k
  location _ t := t.debt
  inlining x := x.debt
  branch b := b.debt
  source := 0
  location_expanding _ _ _ _ _ _ := (zero_add _).symm
  inlining_expanding _ _ := (zero_add _).symm

/-- The placeholders that are owed. -/
def debt (r : Resolution) : Multiset (Nat × Key) :=
  total debtWeight r

/-- The branches of a source owe the placeholders of its imports. -/
theorem branchesDebt_freshBranches (is : List Import) (n : Nat) (ancestry : Ancestry) :
    branchesDebt (freshBranches is n ancestry) = ↑(is.map fun i => (n, i.key)) := by
  induction is with
  | nil => rfl
  | cons i is ih =>
    rw [branchesDebt, freshBranches, List.map_cons, List.map_cons, List.sum_cons] at *
    rw [ih]
    rfl

theorem mem_branchesDebt {bs : List Branch} {x : Nat × Key} (h : x ∈ branchesDebt bs) :
    ∃ b ∈ bs, b.load = x.1 := by
  obtain ⟨b, hb, hx⟩ := mem_sum_map.mp h
  obtain ⟨-, rfl⟩ := mem_owed.mp hx
  exact ⟨b, hb, rfl⟩

end Resolution

/-! ## Nothing is owed in the end -/

namespace Way

variable {lib : Library} {loads : List Load} {r : Resolution} {w : Way}

/-- When a load is settled, so is all that it led to. -/
theorem Stands.settled (hw : w.Stands lib loads r) (h : Sound lib loads r)
    (hsettled : (Way.load w.number).Settled r) : w.Settled r := by
  induction hw with
  | load => exact hsettled
  | @key way i t hway hasks hk hfile hload hancestry ih =>
    have hwaits : way.Waits lib loads (.key way i) := by
      refine ⟨i, hasks, rfl, ?_⟩
      rw [← hancestry]
      exact (h.keys _ t hk).2.1
    exact (hway.fulfilled h (ih hsettled)).settled hwaits
  | @location way i l _ hway hl hkey ih =>
    have hwaits : (Way.key way i).Waits lib loads (.location (.key way i) l) :=
      ((hway.location hl hkey).of_location h).2.1
    exact (hway.fulfilled h (ih hsettled)).settled hwaits

end Way

namespace Resolution

variable {lib : Library} {loads : List Load} {r : Resolution}

/-- When a load is settled, so are the tasks that work on it. -/
theorem Sound.settled_of_key (h : Sound lib loads r) {k : Key} {t : KeyTask}
    (hk : r.key? k = some t) (hsettled : (Way.load t.load).Settled r) :
    ∃ o, t.phase = .settled o := by
  obtain ⟨w, hw, hnumber, -⟩ := h.exists_way_key hk
  obtain ⟨o, ho⟩ := hw.settled h (by rw [Way.number, hnumber]; exact hsettled)
  obtain ⟨t', hk', hphase⟩ := keyOutcome?_eq_some.mp ho
  rw [hk] at hk'
  cases hk'
  exact ⟨o, hphase⟩

theorem Sound.settled_of_location (h : Sound lib loads r) {l : Location} {t : LocationTask}
    (hl : r.location? l = some t) (hsettled : (Way.load t.load).Settled r) :
    ∃ o, t.phase = .settled o := by
  obtain ⟨w, hw, hnumber, -⟩ := h.exists_way_location hl
  obtain ⟨o, ho⟩ := hw.settled h (by rw [Way.number, hnumber]; exact hsettled)
  obtain ⟨t', hl', hphase⟩ := locationOutcome?_eq_some.mp ho
  rw [hl] at hl'
  cases hl'
  exact ⟨o, hphase⟩

theorem Sound.settled_of_inlining (h : Sound lib loads r) {i : Nat} {x : Inlining}
    (hi : r.inlinings[i]? = some x) (hsettled : (Way.load x.load).Settled r) :
    ∃ o, x.phase = .settled o := by
  obtain ⟨i', o, hi'⟩ := hsettled
  have hii' := h.once i i' _ _ hi hi' rfl
  subst hii'
  rw [hi] at hi'
  exact ⟨o, congrArg Inlining.phase (Option.some.inj hi')⟩

/-- For a load that is settled nothing is owed. -/
theorem Sound.not_mem_debt (h : Sound lib loads r) (hcoherent : Coherent lib r) {n : Nat}
    (hsettled : (Way.load n).Settled r) (k : Key) : (n, k) ∉ debt r := by
  intro hmem
  rcases exists_of_mem_total hcoherent hmem with ⟨k', t, hk, hx⟩ | ⟨l, t, hl, hx⟩ | ⟨i, x, hi, hx⟩
  · obtain ⟨howes, heq⟩ := mem_owed.mp hx
    obtain rfl : n = t.load := congrArg Prod.fst heq
    obtain ⟨o, hphase⟩ := h.settled_of_key hk hsettled
    rw [hphase] at howes
    cases howes
  · have hsound := (h.locations l t hl).2
    change (n, k) ∈ t.debt at hx
    have hload : n = t.load := by
      rw [LocationTask.debt] at hx
      split at hx
      · rename_i raw bs hphase
        rw [hphase] at hsound
        obtain ⟨b, hb, hload⟩ := mem_branchesDebt hx
        rw [← (hsound.2.2 b hb).1, hload]
      · exact absurd hx (Multiset.notMem_zero _)
      · exact congrArg Prod.fst (Multiset.mem_singleton.mp hx)
    subst hload
    obtain ⟨o, hphase⟩ := h.settled_of_location hl hsettled
    rw [LocationTask.debt, hphase] at hx
    exact Multiset.notMem_zero _ hx
  · obtain ⟨n', phase⟩ := x
    cases phase with
    | queued => exact Multiset.notMem_zero _ hx
    | settled => exact Multiset.notMem_zero _ hx
    | expanding bs =>
      obtain ⟨load, -, hsound⟩ := h.inlinings i n' _ hi
      obtain ⟨b, hb, hload⟩ := mem_branchesDebt hx
      obtain rfl : n' = n := by rw [← (hsound.2 b hb).1, hload]
      obtain ⟨o, hphase⟩ := h.settled_of_inlining hi hsettled
      cases hphase

end Resolution

end StyleBatch
