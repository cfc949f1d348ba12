import StyleBatch.Proofs.Pipeline.Closings

/-!
# Between two polls

A poll drives a task as far as it goes, so some phases of a job are never seen between two polls:
no member has resolved and not left, none has closed a batch and not called the compiler, and none
has been given its text and not answered.

* `JobPhase.midway`: those phases.
* `Polled.midway`: only the task that is being polled is in one of them.
-/

namespace StyleBatch

open Notes

/-- Phases that a poll does not end in. -/
def Pipeline.JobPhase.midway : Pipeline.JobPhase → Bool
  | .leaving ⟨_, _, .queued⟩ => true
  | .leaving ⟨_, _, .compiling ⟨_, _, .queued⟩⟩ => true
  | .leaving ⟨_, _, .compiling ⟨_, _, .settled _⟩⟩ => true
  | .leaving ⟨_, _, .settled _⟩ => true
  | _ => false

namespace Pipeline

theorem getElem?_setJob (p : Pipeline) (i : Nat) (phase : JobPhase) (j : Nat) :
    (setJob p i phase).jobs[j]? =
      if i = j then p.jobs[j]?.map (fun job => { job with phase }) else p.jobs[j]? := by
  rw [setJob, List.getElem?_modify]
  split <;> simp

theorem getElem?_went {p : Pipeline} {i : Nat} {job : Job} (hi : p.jobs[i]? = some job)
    (out : Departure × Batching × World) :
    (went p i out).jobs[i]? = some { job with phase := .leaving out.1 } := by
  rw [went, getElem?_setJob, if_pos rfl]
  exact congrArg _ hi

/-- A step of a job leaves the other ones as they are. -/
theorem getElem?_stepJob_of_ne (p : Pipeline) {i j : Nat} (h : i ≠ j) (job : Job) :
    (stepJob p i job).jobs[j]? = p.jobs[j]? := by
  have hset : ∀ (p' : Pipeline) phase, p'.jobs = p.jobs →
      (setJob p' i phase).jobs[j]? = p.jobs[j]? := by
    intro p' phase hjobs
    rw [getElem?_setJob, if_neg h, hjobs]
  rw [stepJob]
  split
  · exact hset _ _ rfl
  · split
    · exact hset _ _ rfl
    · dsimp only
      split
      · exact hset _ _ rfl
      · exact hset _ _ rfl
  · split
    · rfl
    · split
      · exact hset _ _ rfl
      · exact hset _ _ rfl
      · exact hset _ _ rfl
  · exact hset _ _ rfl
  · exact hset _ _ rfl
  · split
    · exact hset _ _ rfl
    · exact hset _ _ rfl
  · rfl

theorem getElem?_step_of_ne (p : Pipeline) {task : Task} {j : Nat} (h : task ≠ .job j) :
    (step task p).jobs[j]? = p.jobs[j]? := by
  cases task with
  | resolution t => rfl
  | job i =>
    rw [step]
    split
    · exact getElem?_stepJob_of_ne p (by rintro rfl; exact h rfl) _
    · rfl

/-- Who is midway goes on. -/
theorem ready_of_midway {p : Pipeline} {job : Job} (h : job.phase.midway = true) :
    standingOfJob p job = .ready := by
  obtain ⟨load, mode, phase⟩ := job
  dsimp only at h
  rw [JobPhase.midway.eq_def] at h
  split at h
  · rfl
  · rfl
  · rfl
  · rfl
  · cases h

/-- An invocation that is asleep has a pause to go or a file to fill, so it does not come to where a
poll goes on. -/
theorem midway_of_asleep_compile {x : Invocation} (h : x.standing = (.asleep : Standing Task))
    (w : Workshop) (world : World) (d : Departure) : x.result? = none ∧
      (JobPhase.leaving { d with phase := .compiling (x.step w world).1 }).midway = false := by
  obtain ⟨source, address, phase⟩ := x
  cases phase with
  | queued | opening | settled => cases h
  | filling => exact ⟨rfl, rfl⟩
  | compiling call =>
    obtain ⟨csource, pauses, reply⟩ := call
    cases pauses with
    | zero => cases h
    | succ pauses => exact ⟨rfl, rfl⟩
  | makingDirectory pauses | writing pauses =>
    cases pauses with
    | zero => cases h
    | succ pauses => exact ⟨rfl, rfl⟩

/-- Who was asleep is not midway after its step. -/
theorem midway_of_asleep {p : Pipeline} {i : Nat} {job job' : Job} (hi : p.jobs[i]? = some job)
    (hasleep : standingOfJob p job = .asleep)
    (hi' : (stepJob p i job).jobs[i]? = some job') : job'.phase.midway = false := by
  have hset : ∀ (p' : Pipeline) phase, p'.jobs = p.jobs → phase.midway = false →
      (setJob p' i phase).jobs[i]? = some job' → job'.phase.midway = false := by
    intro p' phase hjobs hmidway hi'
    rw [getElem?_setJob, if_pos rfl, hjobs, hi, Option.map_some, Option.some.injEq] at hi'
    rw [← hi']
    exact hmidway
  rw [standingOfJob] at hasleep
  rw [stepJob] at hi'
  cases hphase : job.phase with
  | delayed pauses =>
    rw [hphase] at hasleep hi'
    cases pauses with
    | zero => cases hasleep
    | succ pauses => exact hset _ _ rfl rfl hi'
  | resolving k =>
    rw [hphase] at hasleep
    dsimp only at hasleep
    split at hasleep <;> cases hasleep
  | settling pauses source =>
    rw [hphase] at hasleep hi'
    cases pauses with
    | zero => cases hasleep
    | succ pauses => exact hset _ _ rfl rfl hi'
  | leaving d =>
    rw [hphase] at hasleep hi'
    cases hd : d.phase with
    | queued => simp [Departure.standing, hd] at hasleep
    | settled text => simp [Departure.standing, hd] at hasleep
    | compiling x =>
      simp only [Departure.standing, hd] at hasleep
      have hx : x.standing = (.asleep : Standing Task) := by
        cases hx : (x.standing : Standing Task) <;> simp [hx] at hasleep ⊢
      obtain ⟨hresult, hmidway⟩ :=
        midway_of_asleep_compile hx p.batching.workshop p.resolution.world d
      simp only [Departure.result?, hd, Departure.step, hresult] at hi'
      exact hset _ _ rfl hmidway hi'
  | settled o =>
    rw [hphase] at hasleep
    cases hasleep

variable {setup : Setup} {acts : List Act} {turn : Option Task}

/-- Only the task that is being polled is midway. -/
theorem Polled.midway (h : Polled setup acts turn) {i : Nat} {job : Job}
    (hi : (setup.after acts).jobs[i]? = some job) (hmidway : job.phase.midway = true) :
    turn = some (.job i) := by
  induction h generalizing job with
  | start => cases hi
  | @act acts turn act _ hpossible hturn ih =>
    rw [after_concat] at hi
    cases act with
    | submit mode load delay =>
      simp only [Act.apply, Pipeline.submit, List.getElem?_append] at hi
      split at hi
      · cases hturn _ (ih hi hmidway)
      · rw [List.mem_singleton.mp (List.mem_of_getElem? hi)] at hmidway
        cases hmidway
    | elsewhere disk kind => cases hturn _ (ih hi hmidway)
    | step task =>
      by_cases htask : task = .job i
      · subst htask
        have hready : standing (step (.job i) (setup.after acts)) (.job i) = .ready := by
          rw [standing]
          rw [Act.apply] at hi
          rw [hi]
          exact ready_of_midway hmidway
        rw [Act.apply, step] at hi
        cases hold : (setup.after acts).jobs[i]? with
        | none =>
          rw [hold] at hi
          dsimp only at hi
          rw [hold] at hi
          cases hi
        | some job' =>
          rw [hold] at hi
          have hstanding : standing (setup.after acts) (.job i) =
              standingOfJob (setup.after acts) job' := by
            rw [standing, hold]
          rcases hpossible with hold' | hasleep
          · rw [Act.turn]
            exact if_pos ⟨hold', Or.inl hready⟩
          · have hnot := midway_of_asleep hold (hstanding.symm.trans hasleep) hi
            rw [hmidway] at hnot
            cases hnot
      · rw [Act.apply, getElem?_step_of_ne _ htask] at hi
        cases hturn _ (ih hi hmidway)
        exact absurd rfl htask

end Pipeline

end StyleBatch
