import StyleBatch.Proofs.Resolution.View

/-!
# Inlinings go on

Whatever the disk says, a step of a resolution keeps every inlining with its load, adds none and
leaves an outcome that is there as it is.

* `Onward`: the relation, closed under what a step writes.
* `onward_step`: every step.
-/

namespace StyleBatch.Resolution

/-- The inlining of a load has ended. -/
def EndsIn (r : Resolution) (n : Nat) (o : Outcome) : Prop :=
  ∃ k : Nat, r.inlinings[k]? = some ⟨n, .settled o⟩

/-- The inlinings are the same, and the outcomes stay. -/
structure Onward (r r' : Resolution) : Prop where
  loads : r'.loads.length = r.loads.length
  inlinings : r'.inlinings.map Inlining.load = r.inlinings.map Inlining.load
  settled : ∀ (k n : Nat) (o : Outcome), r.inlinings[k]? = some ⟨n, .settled o⟩ →
    r'.inlinings[k]? = some ⟨n, .settled o⟩

namespace Onward

variable {r r' r'' : Resolution}

theorem trans (h : Onward r r') (h' : Onward r' r'') : Onward r r'' :=
  ⟨h'.loads.trans h.loads, h'.inlinings.trans h.inlinings,
    fun k n o hk => h'.settled k n o (h.settled k n o hk)⟩

theorem of_eq (hloads : r'.loads.length = r.loads.length) (h : r'.inlinings = r.inlinings) :
    Onward r r' :=
  ⟨hloads, by rw [h], fun k n o hk => h ▸ hk⟩

theorem refl (r : Resolution) : Onward r r :=
  of_eq rfl rfl

theorem setLoadText (r : Resolution) (n : Nat) (text : Text) : Onward r (r.setLoadText n text) :=
  of_eq (length_loads_setLoadText ..) rfl

theorem setInlining {i n : Nat} {old : InliningPhase} (h : r.inlinings[i]? = some ⟨n, old⟩)
    (hold : ∀ o, old ≠ .settled o) (phase : InliningPhase) : Onward r (r.setInlining i phase) where
  loads := rfl
  inlinings := map_load_setInlining ..
  settled k m o hk := by
    rw [getElem?_setInlining, if_neg, hk]
    rintro rfl
    rw [h] at hk
    cases hk
    exact hold o rfl

theorem setBranch (r : Resolution) (owner : Owner) (j : Nat) (phase : BranchPhase) :
    Onward r (r.setBranch owner j phase) := by
  rcases setBranch_cases r owner j phase with h | ⟨i, n, bs, -, hi, h⟩ | ⟨_, _, _, _, _, _, _, h⟩
  · rw [h]
    exact .refl r
  · rw [h]
    exact .setInlining hi nofun _
  · rw [h]
    exact of_eq rfl rfl

/-- Inlinings that are for the same loads differ in their phases only. -/
theorem exists_of_map_load_eq {xs ys : List Inlining}
    (h : xs.map Inlining.load = ys.map Inlining.load) {k n : Nat} {phase : InliningPhase}
    (hk : xs[k]? = some ⟨n, phase⟩) : ∃ phase', ys[k]? = some ⟨n, phase'⟩ := by
  have hload : (ys.map Inlining.load)[k]? = some n := by
    rw [← h, List.getElem?_map, hk]
    rfl
  rw [List.getElem?_map, Option.map_eq_some_iff] at hload
  obtain ⟨⟨m, phase'⟩, hk', rfl⟩ := hload
  exact ⟨phase', hk'⟩

/-- Who has a load still has it. -/
theorem getElem? (h : Onward r r') {k n : Nat} {phase : InliningPhase}
    (hk : r.inlinings[k]? = some ⟨n, phase⟩) : ∃ phase', r'.inlinings[k]? = some ⟨n, phase'⟩ :=
  exists_of_map_load_eq h.inlinings.symm hk

/-- Who has a load had it before. -/
theorem getElem?_before (h : Onward r r') {k n : Nat} {phase : InliningPhase}
    (hk : r'.inlinings[k]? = some ⟨n, phase⟩) : ∃ old, r.inlinings[k]? = some ⟨n, old⟩ :=
  exists_of_map_load_eq h.inlinings hk

theorem ended (h : Onward r r') {n : Nat} {o : Outcome} (hn : EndsIn r n o) : EndsIn r' n o := by
  obtain ⟨k, hk⟩ := hn
  exact ⟨k, h.settled k n o hk⟩

end Onward

variable (r : Resolution)

theorem inlinings_beginPause {α : Type} (ticks : Nat) (answer : Disk → α) :
    (beginPause r ticks answer).2.inlinings = r.inlinings ∧
      (beginPause r ticks answer).2.loads = r.loads := by
  rw [beginPause]
  split <;> exact ⟨rfl, rfl⟩

theorem onward_stepInlining (i : Nat) : Onward r (stepInlining r i) := by
  rw [stepInlining]
  split
  · exact .refl r
  · rename_i x hx
    obtain ⟨n, phase⟩ := x
    cases phase with
    | settled o => exact .refl r
    | expanding branches =>
      dsimp only
      split
      · exact .setInlining hx nofun _
      · exact .setInlining hx nofun _
    | queued =>
      dsimp only
      split
      · exact .setInlining hx nofun _
      · split
        · exact .setInlining hx nofun _
        · have hqueued : ∀ o, InliningPhase.queued ≠ .settled o := nofun
          exact .trans (.setLoadText ..) (.setInlining (by exact hx) hqueued _)

theorem onward_stepBranch (owner : Owner) (j : Nat) : Onward r (stepBranch r owner j) := by
  rw [stepBranch]
  split
  · exact .refl r
  · dsimp only
    split
    · split
      · exact .setBranch ..
      · refine .trans ?_ (.setBranch ..)
        exact .of_eq rfl rfl
    · split
      · exact .refl r
      · refine .trans ?_ (.setBranch ..)
        split
        · exact .of_eq (length_loads_setLoadText ..) rfl
        · exact .refl r
    · exact .refl r

theorem onward_beginLocating (k : Key) (t : KeyTask) (name : Text) (candidates : List Text) :
    Onward r (beginLocating r k t name candidates) := by
  obtain ⟨hinlinings, hloads⟩ := inlinings_beginPause r 1 (probe? r candidates)
  exact .of_eq (congrArg List.length hloads) hinlinings

theorem onward_stepKey (k : Key) : Onward r (stepKey r k) := by
  rw [stepKey]
  split
  · exact .refl r
  · rename_i t _
    dsimp only
    split
    · exact .of_eq rfl rfl
    · split
      · exact .of_eq rfl rfl
      · exact onward_beginLocating ..
    · split
      · exact .of_eq rfl rfl
      · rw [reserveLocation]
        dsimp only
        split <;> exact .of_eq rfl rfl
      · split
        · exact .of_eq rfl rfl
        · exact onward_beginLocating ..
    · split
      · exact .refl r
      · split
        · exact .of_eq (length_loads_setLoadText ..) rfl
        · exact .of_eq rfl rfl
    · exact .refl r

theorem onward_stepLocation (l : Location) : Onward r (stepLocation r l) := by
  rw [stepLocation]
  split
  · exact .refl r
  · rename_i t _
    dsimp only
    split
    · obtain ⟨hinlinings, hloads⟩ := inlinings_beginPause r r.loader.fetchingTicks
        fun disk => r.loader.fetch disk l.text
      exact .of_eq (congrArg List.length hloads) hinlinings
    · split
      · exact .of_eq rfl rfl
      · exact .of_eq rfl rfl
      · split
        · exact .of_eq rfl rfl
        · exact .of_eq (length_loads_setLoadText ..) rfl
    · split <;> exact .of_eq rfl rfl
    · exact .refl r

/-- A step keeps the inlinings and their outcomes. -/
theorem onward_step (task : Task) : Onward r (step task r) := by
  match task with
  | .source (.inlining i) => exact onward_stepInlining r i
  | .source (.location l) => exact onward_stepLocation r l
  | .branch owner j => exact onward_stepBranch r owner j
  | .key k => exact onward_stepKey r k
  | .disk => exact .of_eq rfl rfl

end StyleBatch.Resolution
