import StyleBatch.Proofs.Resolution.View

/-!
# What a resolution keeps out of

A step of a resolution writes to the texts of the loads, to the cache and to the log.  It leaves the
disk and the addresses of the loads as they are, and says nothing about batches.

* `Aloof`: the relation, closed under what a step writes.
* `aloof_step`: every step.
-/

namespace StyleBatch

/-- What is said about batches is the same after another event. -/
theorem Log.batchEvents_emit (log : Log) (kind : EventKind) : (log.emit kind).batchEvents =
    log.batchEvents ++ if kind.isBatchEvent then [⟨log.length, 0, kind⟩] else [] := by
  rw [Log.batchEvents, Log.emit, List.filter_append, Log.batchEvents]
  congr 1
  exact List.filter_cons

theorem Log.batchEvents_emit_of_not {kind : EventKind} (h : kind.isBatchEvent = false) (log : Log) :
    (log.emit kind).batchEvents = log.batchEvents := by
  rw [Log.batchEvents_emit, h]
  exact List.append_nil _

namespace Resolution

/-- The disk, the addresses and what is said about batches are the same. -/
structure Aloof (r r' : Resolution) : Prop where
  disk : r'.world.disk = r.world.disk
  addresses : r'.loads.map Load.address = r.loads.map Load.address
  batchEvents : r'.world.log.batchEvents = r.world.log.batchEvents

namespace Aloof

variable {r r' r'' : Resolution}

theorem trans (h : Aloof r r') (h' : Aloof r' r'') : Aloof r r'' :=
  ⟨h'.disk.trans h.disk, h'.addresses.trans h.addresses, h'.batchEvents.trans h.batchEvents⟩

theorem of_eq (hworld : r'.world = r.world) (hloads : r'.loads = r.loads) : Aloof r r' :=
  ⟨by rw [hworld], by rw [hloads], by rw [hworld]⟩

theorem refl (r : Resolution) : Aloof r r :=
  of_eq rfl rfl

theorem setLoadText (r : Resolution) (n : Nat) (text : Text) : Aloof r (r.setLoadText n text) where
  disk := rfl
  addresses := by
    apply List.ext_getElem?
    intro i
    rw [List.getElem?_map, List.getElem?_map, Resolution.setLoadText, List.getElem?_modify]
    split <;> simp [Function.comp_def]
  batchEvents := rfl

theorem emit (r : Resolution) {kind : EventKind} (h : kind.isBatchEvent = false) :
    Aloof r (r.emit kind) :=
  ⟨rfl, rfl, Log.batchEvents_emit_of_not h _⟩

theorem clearPlaceholder (r : Resolution) (n : Nat) (k : Key) (location : Option Location) :
    Aloof r (r.clearPlaceholder n k location) :=
  (setLoadText ..).trans (emit _ rfl)

theorem setBranch (r : Resolution) (owner : Owner) (j : Nat) (phase : BranchPhase) :
    Aloof r (r.setBranch owner j phase) := by
  rcases setBranch_cases r owner j phase with h | ⟨_, _, _, _, _, h⟩ | ⟨_, _, _, _, _, _, _, h⟩
  · rw [h]
    exact .refl r
  · rw [h]
    exact .of_eq rfl rfl
  · rw [h]
    exact .of_eq rfl rfl

end Aloof

variable (r : Resolution)

theorem aloof_beginPause {α : Type} (ticks : Nat) (answer : Disk → α) :
    Aloof r (beginPause r ticks answer).2 := by
  rw [beginPause]
  split <;> exact .of_eq rfl rfl

theorem aloof_stepInlining (i : Nat) : Aloof r (stepInlining r i) := by
  rw [stepInlining]
  split
  · exact .refl r
  · split
    · dsimp only
      split
      · exact .of_eq rfl rfl
      · split
        · exact .of_eq rfl rfl
        · exact .trans (.setLoadText ..) (.of_eq rfl rfl)
    · split <;> exact .of_eq rfl rfl
    · exact .refl r

theorem aloof_stepBranch (owner : Owner) (j : Nat) : Aloof r (stepBranch r owner j) := by
  rw [stepBranch]
  split
  · exact .refl r
  · dsimp only
    split
    · split
      · exact .setBranch ..
      · refine .trans ?_ (.setBranch ..)
        exact .of_eq rfl rfl
    · split
      · exact .refl r
      · refine .trans ?_ (.setBranch ..)
        split
        · exact .clearPlaceholder ..
        · exact .refl r
    · exact .refl r

theorem aloof_beginLocating (k : Key) (t : KeyTask) (name : Text) (candidates : List Text) :
    Aloof r (beginLocating r k t name candidates) :=
  (aloof_beginPause r 1 (probe? r candidates)).trans (.of_eq rfl rfl)

theorem aloof_reserveLocation (k : Key) (t : KeyTask) (address : Text) :
    Aloof r (reserveLocation r k t address) := by
  rw [reserveLocation]
  dsimp only
  split <;> exact .of_eq rfl rfl

theorem aloof_stepKey (k : Key) : Aloof r (stepKey r k) := by
  rw [stepKey]
  split
  · exact .refl r
  · dsimp only
    split
    · exact .of_eq rfl rfl
    · split
      · exact .of_eq rfl rfl
      · exact aloof_beginLocating ..
    · split
      · exact .of_eq rfl rfl
      · exact aloof_reserveLocation ..
      · split
        · exact .of_eq rfl rfl
        · exact aloof_beginLocating ..
    · split
      · exact .refl r
      · split
        · exact .trans (.clearPlaceholder ..) (.of_eq rfl rfl)
        · exact .of_eq rfl rfl
    · exact .refl r

theorem aloof_stepLocation (l : Location) : Aloof r (stepLocation r l) := by
  rw [stepLocation]
  split
  · exact .refl r
  · rename_i t _
    dsimp only
    split
    · exact (aloof_beginPause r r.loader.fetchingTicks
        fun disk => r.loader.fetch disk l.text).trans (.of_eq rfl rfl)
    · split
      · exact .of_eq rfl rfl
      · exact .of_eq rfl rfl
      · rename_i raw _
        have hfetched : (EventKind.importFetched t.key.text l.text
          (Text.byteSize raw)).isBatchEvent = false := rfl
        refine (Aloof.emit r hfetched).trans ?_
        split
        · exact .of_eq rfl rfl
        · exact .trans (.setLoadText ..) (.of_eq rfl rfl)
    · split <;> exact .of_eq rfl rfl
    · exact .refl r

/-- A step keeps out of the disk, the addresses and the batches. -/
theorem aloof_step (task : Task) : Aloof r (step task r) := by
  match task with
  | .source (.inlining i) => exact aloof_stepInlining r i
  | .source (.location l) => exact aloof_stepLocation r l
  | .branch owner j => exact aloof_stepBranch r owner j
  | .key k => exact aloof_stepKey r k
  | .disk => exact .of_eq rfl rfl

end Resolution

end StyleBatch
