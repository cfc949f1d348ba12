import StyleBatch.Proofs.Pipeline.Closings
import StyleBatch.Proofs.Resolution.Audit
import StyleBatch.Proofs.Resolution.Quiet

/-!
# Imports of a pipeline

Jobs, members on their way out and invocations write to the log of the resolution, but not about
imports.  So what is known of recorded runs of a resolution is known of pipelines, whatever batches
are closed and compiled at the same time.

* `imports_stepJob`: a step of a job leaves what the log says about imports.
* `Reached.recorded`: the resolution of a pipeline is one of a recorded run.
* `Reached.exists_attachments`: the log of a pipeline has the event of each directive.
* `Reached.quiet_of_left`: a member that has left its batch is quiet.
-/

namespace StyleBatch

theorem Log.imports_emit_of_not {kind : EventKind} (h : kind.isImport = false) (log : Log) :
    (log.emit kind).imports = log.imports := by
  rw [imports_emit, List.filter_singleton, h]
  exact List.append_nil _

namespace Invocation

variable {i : Nat} {w w' : Workshop} {world world' : World} {x x' : Invocation}
  {note : Option Note} {storing : Option Storing}

theorem Does.imports (h : Does i w world x note storing (x', w', world')) :
    world'.log.imports = world.log.imports := by
  cases h with
  | waited | called | made | opened | unopened | filled => rfl
  | _ => exact Log.imports_emit_of_not rfl _

end Invocation

namespace Departure

variable {d : Departure} {b : Batching} {world : World} {out : Departure × Batching × World}

theorem imports_farewell : (d.farewell world).log.imports = world.log.imports := by
  rw [farewell]
  split
  · rfl
  · exact Log.imports_emit_of_not rfl _

theorem Goes.imports (h : Goes d b world out) : out.2.2.log.imports = world.log.imports := by
  cases h with
  | left => exact imports_farewell
  | closed => exact (Log.imports_emit_of_not rfl _).trans imports_farewell
  | skipped =>
    refine (Log.imports_emit_of_not rfl _).trans ?_
    exact (Log.imports_emit_of_not rfl _).trans imports_farewell
  | invoked _ hx => exact (Invocation.does_step 0 b.workshop world _ hx).imports
  | failed | compiled => rfl

end Departure

namespace Pipeline

theorem imports_register (settings : BatchSettings) (address : Text) (b : Batch) (world : World) :
    (b.register settings address world).2.2.log.imports = world.log.imports := by
  rw [Batch.register]
  split <;> exact Log.imports_emit_of_not rfl _

/-- A job says nothing about imports. -/
theorem imports_stepJob (p : Pipeline) (i : Nat) (job : Job) :
    (stepJob p i job).log.imports = p.log.imports := by
  rw [stepJob]
  split
  · rfl
  · split
    · rfl
    · have hregister := imports_register p.batching.settings (address p job) p.batching.batch
        p.resolution.world
      dsimp only
      split <;> exact hregister
  · split
    · rfl
    · split <;> rfl
  · rfl
  · rfl
  · split
    · rfl
    · rename_i hd
      exact (Departure.goes_step _ p.batching p.resolution.world hd).imports
  · rfl

theorem imports_step_job (p : Pipeline) (i : Nat) :
    (step (.job i) p).log.imports = p.log.imports := by
  rw [step]
  split
  · exact imports_stepJob ..
  · rfl

variable {setup : Setup} {loads : List Load} {notes : List Note} {p : Pipeline}

/-- The resolution of a pipeline is one of a recorded run as long as the loader finds the same on
the disk. -/
theorem Reached.recorded (h : Reached setup setup.library.SameOn loads notes p) :
    ∃ claims, Resolution.Recorded setup.library loads claims p.resolution := by
  induction h with
  | start => exact ⟨[], .start⟩
  | submit mode load delay _ ih => exact ih.imp fun _ hr => hr.submit load
  | @elsewhere loads notes p disk kind _ hallowed ih =>
    exact ih.imp fun _ hr => hr.elsewhere { p.resolution.world with disk } hallowed rfl
  | @poll loads notes p task hp hcan hallowed ih =>
    obtain ⟨claims, hr⟩ := ih
    cases task with
    | resolution t => exact ⟨_, hr.poll (canStep_resolution.mp hcan)⟩
    | job i =>
      have himports := imports_step_job p i
      rw [log] at himports
      rw [disk] at hallowed
      rcases (move_of_canStep hcan).resolution_cases with ⟨t, ht, heq⟩ |
        ⟨i, job, world, hi, hphase, heq⟩ | ⟨world, heq⟩
      · exact ⟨_, heq ▸ hr.poll ht⟩
      · obtain ⟨hlt, hnew⟩ := hp.linked.unbegun hi hphase
        rw [heq] at hallowed himports ⊢
        exact ⟨claims, (hr.elsewhere world hallowed himports).begin job.load hlt hnew⟩
      · rw [heq] at hallowed himports ⊢
        exact ⟨claims, hr.elsewhere world hallowed himports⟩

/-- When all loads of a pipeline have been inlined without a fault, every directive of the loads and
of the files that were fetched is attached, and the log has the event of each of them, and no other
event about an import. -/
theorem Reached.exists_attachments (h : Reached setup setup.library.SameOn loads notes p)
    (hall : ∀ n < loads.length, Resolution.Succeeded p.resolution n) :
    ∃ (claims : List Claim) (trail : List (Occurrence × Attachment)),
      Resolution.Recorded setup.library loads claims p.resolution ∧
      (trail.map Prod.fst).Perm (setup.library.allOccurrences loads p.resolution.fetched) ∧
      (∀ o a, (o, a) ∈ trail ↔ Resolution.Attached claims o a) ∧
      p.log.imports.Perm (trail.map fun e => e.2.event setup.library e.1.target.key) := by
  obtain ⟨claims, hr⟩ := h.recorded
  obtain ⟨trail, hperm, hattached, hlog, -⟩ := hr.exists_attachments hall
  exact ⟨claims, trail, hr, hperm, hattached, hlog⟩

/-- When a member has left its batch, with a text or a fault, nothing that its load waited for, and
nothing that works on the load, is left to be done. -/
theorem Reached.quiet_of_left (h : Reached setup setup.library.SameOn loads notes p) :
    ∃ claims, Resolution.Recorded setup.library loads claims p.resolution ∧
      ∀ i c closed, .left i c closed ∈ notes →
        Resolution.Quiet setup.library claims i p.resolution := by
  obtain ⟨claims, hr⟩ := h.recorded
  refine ⟨claims, hr, fun i c closed hleft => ?_⟩
  obtain ⟨k, hk⟩ := h.linked.left i c closed hleft
  exact hr.quiet hk

end Pipeline

end StyleBatch
