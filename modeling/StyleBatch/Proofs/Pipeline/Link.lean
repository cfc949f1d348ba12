import StyleBatch.Proofs.Pipeline.Course
import StyleBatch.Proofs.Resolution.Onward

/-!
# Jobs and their inlinings

The load of a job has the number of the job, and it is inlined once.  What the job goes on with is
what the inlining has ended with; so a load hands in its inlined source when it is complete, and
leaves with the fault of its inlining when it is not.

* `Linked.move`: every move keeps jobs and inlinings together.
* `Reached.linked`: so they are together in every state that comes about.
* `Reached.resolution`: the resolution of a pipeline is one that comes about.
-/

namespace StyleBatch

open Resolution

/-- What the inlining has ended with when a load leaves with the contribution. -/
def Contribution.outcome : Contribution → Outcome
  | source t => .ok t
  | failure fault => .error fault

namespace Pipeline

/-- How far the inlining of a load is. -/
def Job.Works (r : Resolution) (i : Nat) (job : Job) : Prop :=
  job.load = i ∧
    match job.phase with
    | .delayed _ => ∀ x ∈ r.inlinings, x.load ≠ i
    | .resolving k => ∃ phase, r.inlinings[k]? = some ⟨i, phase⟩
    | .settling _ source => EndsIn r i (.ok source)
    | .leaving d => EndsIn r i d.contribution.outcome
    | .settled _ => True

/-- Jobs and inlinings belong together. -/
structure Linked (count : Nat) (notes : List Note) (p : Pipeline) : Prop where
  length_jobs : p.jobs.length = count
  length_loads : p.resolution.loads.length = count
  works : ∀ (i : Nat) (job : Job), p.jobs[i]? = some job → job.Works p.resolution i
  bounded : ∀ n ∈ p.resolution.inlinings.map Inlining.load, n < count
  nodup : (p.resolution.inlinings.map Inlining.load).Nodup
  left : ∀ i c closed, .left i c closed ∈ notes → EndsIn p.resolution i c.outcome

variable {count : Nat} {notes : List Note} {p p' : Pipeline} {i : Nat} {job : Job}

theorem Job.Works.onward {r r' : Resolution} (h : job.Works r i) (hr : Onward r r') :
    job.Works r' i := by
  obtain ⟨load, mode, phase⟩ := job
  refine ⟨h.1, ?_⟩
  have h := h.2
  cases phase with
  | delayed pauses =>
    have hloads : ∀ n ∈ r.inlinings.map Inlining.load, n ≠ i := by simpa using h
    rw [← hr.inlinings] at hloads
    simpa using hloads
  | resolving k =>
    obtain ⟨phase, hk⟩ := h
    exact hr.getElem? hk
  | settling pauses source => exact hr.ended h
  | leaving d => exact hr.ended h
  | settled o => trivial

/-- An inlining begins. -/
theorem Job.Works.begin {r : Resolution} (h : job.Works r i) {n : Nat} (hn : i ≠ n) :
    job.Works (r.begin n) i := by
  obtain ⟨load, mode, phase⟩ := job
  refine ⟨h.1, ?_⟩
  have h := h.2
  cases phase with
  | delayed pauses =>
    intro x hx
    rcases List.mem_append.mp hx with hx | hx
    · exact h x hx
    · rw [List.mem_singleton.mp hx]
      exact hn.symm
  | resolving k =>
    obtain ⟨phase, hk⟩ := h
    exact ⟨phase, getElem?_append_of_eq_some hk _⟩
  | settling pauses source =>
    obtain ⟨k, hk⟩ := h
    exact ⟨k, getElem?_append_of_eq_some hk _⟩
  | leaving d =>
    obtain ⟨k, hk⟩ := h
    exact ⟨k, getElem?_append_of_eq_some hk _⟩
  | settled o => trivial

theorem ended_of_inliningOutcome? {r : Resolution} {k n : Nat} {phase : InliningPhase} {o : Outcome}
    (hk : r.inlinings[k]? = some ⟨n, phase⟩) (ho : r.inliningOutcome? k = some o) :
    EndsIn r n o := by
  simp only [inliningOutcome?, hk, Option.bind_some] at ho
  cases phase with
  | settled o' =>
    cases ho
    exact ⟨k, hk⟩
  | queued => cases ho
  | expanding bs => cases ho

namespace Linked

/-- Only the outcome of its inlining counts for a job. -/
theorem of_onward (h : Linked count notes p) (hr : Onward p.resolution p'.resolution)
    (hjobs : p'.jobs = p.jobs) : Linked count notes p' where
  length_jobs := by rw [hjobs, h.length_jobs]
  length_loads := by rw [hr.loads, h.length_loads]
  works i job hi := (h.works i job (hjobs ▸ hi)).onward hr
  bounded := by
    rw [hr.inlinings]
    exact h.bounded
  nodup := by
    rw [hr.inlinings]
    exact h.nodup
  left i c closed hleft := hr.ended (h.left i c closed hleft)

/-- A job comes into another phase. -/
theorem setJob (h : Linked count notes p) (hi : p.jobs[i]? = some job) {phase : JobPhase}
    (hr : Onward p.resolution p'.resolution)
    (hjobs : p'.jobs = p.jobs.modify i fun job => { job with phase })
    (hworks : ({ job with phase } : Job).Works p.resolution i) : Linked count notes p' where
  length_jobs := by rw [hjobs, List.length_modify, h.length_jobs]
  length_loads := by rw [hr.loads, h.length_loads]
  works i' job' hi' := by
    rcases getElem?_modify_cases hi (hjobs ▸ hi') with ⟨rfl, rfl⟩ | ⟨-, hi'⟩
    · exact hworks.onward hr
    · exact (h.works i' job' hi').onward hr
  bounded := by
    rw [hr.inlinings]
    exact h.bounded
  nodup := by
    rw [hr.inlinings]
    exact h.nodup
  left i c closed hleft := hr.ended (h.left i c closed hleft)

/-- A job begins to inline its load. -/
theorem beginResolving (h : Linked count notes p) (hi : p.jobs[i]? = some job) {pauses : Nat}
    (hphase : job.phase = .delayed pauses) :
    Linked count notes (beginResolving p i job) := by
  obtain ⟨hload, hdelayed⟩ := h.works i job hi
  rw [hphase] at hdelayed
  have hnot : i ∉ p.resolution.inlinings.map Inlining.load := by
    rw [List.mem_map]
    rintro ⟨x, hx, hxi⟩
    exact hdelayed x hx hxi
  have hmap : (p.resolution.begin job.load).inlinings.map Inlining.load =
      p.resolution.inlinings.map Inlining.load ++ [i] := by
    rw [Resolution.begin, List.map_append, hload]
    rfl
  have hcount : i < count := h.length_jobs ▸ (List.getElem?_eq_some_iff.mp hi).1
  refine ⟨?_, h.length_loads, fun i' job' hi' => ?_, ?_, ?_, fun i' c closed hleft => ?_⟩
  · rw [Pipeline.beginResolving, Pipeline.setJob, List.length_modify, h.length_jobs]
  · rcases getElem?_modify_cases hi hi' with ⟨rfl, rfl⟩ | ⟨hii', hi'⟩
    · refine ⟨hload, .queued, ?_⟩
      change (p.resolution.inlinings ++ [_])[p.resolution.inlinings.length]? = _
      rw [List.getElem?_append_right le_rfl, Nat.sub_self, hload]
      rfl
    · exact (h.works i' job' hi').begin (hload ▸ hii')
  · change ∀ n ∈ (p.resolution.begin job.load).inlinings.map Inlining.load, n < count
    rw [hmap]
    intro n hn
    rcases List.mem_append.mp hn with hn | hn
    · exact h.bounded n hn
    · exact List.mem_singleton.mp hn ▸ hcount
  · change ((p.resolution.begin job.load).inlinings.map Inlining.load).Nodup
    rw [hmap]
    refine List.nodup_append.mpr ⟨h.nodup, List.nodup_singleton i, ?_⟩
    rintro n hn _ hn' rfl
    exact hnot (List.mem_singleton.mp hn' ▸ hn)
  · obtain ⟨k, hk⟩ := h.left i' c closed hleft
    exact ⟨k, getElem?_append_of_eq_some hk _⟩

/-- Whoever leaves leaves with what its inlining has ended with. -/
theorem note (h : Linked count notes p) {more : List Note}
    (hmore : ∀ i c closed, .left i c closed ∈ more → EndsIn p.resolution i c.outcome) :
    Linked count (notes ++ more) p where
  length_jobs := h.length_jobs
  length_loads := h.length_loads
  works := h.works
  bounded := h.bounded
  nodup := h.nodup
  left i c closed hleft := by
    rcases List.mem_append.mp hleft with hleft | hleft
    · exact h.left i c closed hleft
    · exact hmore i c closed hleft

/-- A job moves on with what its inlining has ended with. -/
theorem moved (h : Linked count notes p) {task : Task} {note : Option Note}
    (hmove : Move p task note p') : Linked count notes p' := by
  cases hmove with
  | resolution _ => exact h.of_onward (onward_step ..) rfl
  | @waited i job phase hi hwaits =>
    refine h.setJob hi (.refl _) rfl ?_
    have hworks := h.works i job hi
    rw [Job.Works] at hworks ⊢
    generalize job.phase = old at hwaits hworks
    cases hwaits <;> exact hworks
  | @deferred i job batch world hi _ _ _ =>
    exact h.setJob hi (.of_eq rfl rfl) rfl ⟨(h.works i job hi).1, trivial⟩
  | @joined i job world hi hphase _ =>
    have hwith : Linked count notes (withBatch p p.batching.batch.join world) :=
      h.of_onward (.of_eq rfl rfl) rfl
    exact hwith.beginResolving hi hphase
  | @begun i job hi hphase _ => exact h.beginResolving hi hphase
  | @inlined i k job o hi _ _ _ =>
    exact h.setJob hi (.refl _) rfl ⟨(h.works i job hi).1, trivial⟩
  | @resolved i k job source pauses hi hphase _ ho =>
    obtain ⟨hload, hworks⟩ := h.works i job hi
    rw [hphase] at hworks
    obtain ⟨phase, hk⟩ := hworks
    exact h.setJob hi (.refl _) rfl ⟨hload, ended_of_inliningOutcome? hk ho⟩
  | @failed i k job fault hi hphase _ ho =>
    obtain ⟨hload, hworks⟩ := h.works i job hi
    rw [hphase] at hworks
    obtain ⟨phase, hk⟩ := hworks
    exact h.setJob hi (.refl _) rfl ⟨hload, ended_of_inliningOutcome? hk ho⟩
  | @finished i job source hi hphase =>
    obtain ⟨hload, hworks⟩ := h.works i job hi
    rw [hphase] at hworks
    exact h.setJob hi (.refl _) rfl ⟨hload, hworks⟩
  | @left i job d phase batch world hi hphase _ _ _ =>
    obtain ⟨hload, hworks⟩ := h.works i job hi
    rw [hphase] at hworks
    exact h.setJob hi (.of_eq rfl rfl) rfl ⟨hload, hworks⟩
  | @compiling i job d x hi hphase _ _ =>
    obtain ⟨hload, hworks⟩ := h.works i job hi
    rw [hphase] at hworks
    exact h.setJob hi (.of_eq rfl rfl) rfl ⟨hload, hworks⟩
  | @compiled i job d x text batch hi hphase _ _ _ =>
    obtain ⟨hload, hworks⟩ := h.works i job hi
    rw [hphase] at hworks
    exact h.setJob hi (.of_eq rfl rfl) rfl ⟨hload, hworks⟩
  | @answered i job d text hi hphase _ =>
    exact h.setJob hi (.refl _) rfl ⟨(h.works i job hi).1, trivial⟩

theorem ended_of_left (h : Linked count notes p) {task : Task} {note : Option Note}
    (hmove : Move p task note p') {i : Nat} {c : Contribution} {closed : Option ClosedBatch}
    (hleft : note = some (.left i c closed)) : EndsIn p'.resolution i c.outcome := by
  cases hmove with
  | @left i job d phase batch world hi hphase _ _ _ =>
    cases hleft
    have hworks := (h.works i job hi).2
    rw [hphase] at hworks
    exact hworks
  | compiling => exact (Invocation.note_idle hleft).1.elim
  | _ => cases hleft

/-- Every move keeps jobs and inlinings together. -/
theorem move (h : Linked count notes p) {task : Task} {note : Option Note}
    (hmove : Move p task note p') : Linked count (notes ++ note.toList) p' :=
  (h.moved hmove).note fun _ _ _ hleft => h.ended_of_left hmove (Option.mem_toList.mp hleft)

/-- The load of a job that is delayed is not inlined yet. -/
theorem unbegun (h : Linked count notes p) (hi : p.jobs[i]? = some job) {pauses : Nat}
    (hphase : job.phase = .delayed pauses) :
    job.load < count ∧ ∀ x ∈ p.resolution.inlinings, x.load ≠ job.load := by
  obtain ⟨hload, hdelayed⟩ := h.works i job hi
  rw [hphase] at hdelayed
  rw [hload, ← h.length_jobs]
  exact ⟨(List.getElem?_eq_some_iff.mp hi).1, hdelayed⟩

/-- The load that is submitted has the number of its job. -/
theorem submit (h : Linked count notes p) (mode : Mode) (load : Load) (delay : Nat) :
    Linked (count + 1) notes (submit mode load delay p) where
  length_jobs := by
    rw [Pipeline.submit, List.length_append, h.length_jobs]
    rfl
  length_loads := by
    rw [Pipeline.submit, Resolution.addLoad, List.length_append, h.length_loads]
    rfl
  works i job hi := by
    simp only [Pipeline.submit, List.getElem?_append] at hi
    split at hi
    · exact h.works i job hi
    · rename_i hlt
      have hi' := (List.getElem?_eq_some_iff.mp hi).1
      rw [List.length_singleton] at hi'
      rw [List.mem_singleton.mp (List.mem_of_getElem? hi)]
      refine ⟨?_, fun x hx hxi => ?_⟩
      · change p.resolution.loads.length = i
        rw [h.length_loads, ← h.length_jobs]
        omega
      · have hlt' := h.bounded _ (List.mem_map_of_mem hx)
        rw [← h.length_jobs] at hlt'
        omega
  bounded n hn := (h.bounded n hn).trans (Nat.lt_succ_self _)
  nodup := h.nodup
  left := h.left

end Linked

variable {setup : Setup} {allowed : Disk → Prop} {loads : List Load}

/-- Jobs and inlinings belong together in every state that comes about. -/
theorem Reached.linked (h : Reached setup allowed loads notes p) : Linked loads.length notes p := by
  induction h with
  | start =>
    exact ⟨rfl, rfl, fun _ _ hi => (nomatch hi), fun _ hn => (nomatch hn), .nil,
      fun _ _ _ hleft => (nomatch hleft)⟩
  | submit mode load delay _ ih =>
    rw [List.length_append]
    exact ih.submit mode load delay
  | poll _ hcan _ ih => exact ih.move (move_of_canStep hcan)
  | elsewhere disk kind _ _ ih => exact ih.of_onward (.of_eq rfl rfl) rfl

theorem modes_setJob (p : Pipeline) (i : Nat) (phase : JobPhase) :
    (setJob p i phase).jobs.map Job.mode = p.jobs.map Job.mode := by
  apply List.ext_getElem?
  intro i'
  rw [List.getElem?_map, List.getElem?_map, setJob, List.getElem?_modify]
  split <;> simp [Function.comp_def]

theorem Move.modes {task : Task} {note : Option Note} (h : Move p task note p') :
    p'.jobs.map Job.mode = p.jobs.map Job.mode := by
  cases h with
  | resolution => rfl
  | _ => exact modes_setJob ..

/-- Whoever is inlined has joined an epoch, or is inlined outside all batches. -/
theorem Reached.joined_of_inlining (h : Reached setup allowed loads notes p) :
    ∀ n ∈ p.resolution.inlinings.map Inlining.load, (∃ e, .joined n e ∈ notes) ∨
      (p.jobs.map Job.mode)[n]? = some .inline := by
  induction h with
  | start => exact fun _ hn => absurd hn List.not_mem_nil
  | submit mode load delay _ ih =>
    intro n hn
    refine (ih n hn).imp_right fun hmode => ?_
    rw [Pipeline.submit, List.map_append]
    exact getElem?_append_of_eq_some hmode _
  | elsewhere disk kind _ _ ih => exact ih
  | @poll loads notes p task hp hcan _ ih =>
    have hmove := move_of_canStep hcan
    have hmodes := hmove.modes
    generalize step task p = p' at hmove hmodes
    generalize note p task = note at hmove
    have hold : ∀ n ∈ p.resolution.inlinings.map Inlining.load,
        (∃ e, .joined n e ∈ notes ++ note.toList) ∨ (p'.jobs.map Job.mode)[n]? = some .inline := by
      intro n hn
      rw [hmodes]
      exact (ih n hn).imp_left (Exists.imp fun _ => List.mem_append_left _)
    -- An inlining is new when its load joins or when it is inlined outside all batches.
    have hbegin : ∀ i job, p.jobs[i]? = some job →
        ((∃ e, .joined i e ∈ notes ++ note.toList) ∨ (p'.jobs.map Job.mode)[i]? = some .inline) →
        ∀ n ∈ (p.resolution.begin job.load).inlinings.map Inlining.load,
          (∃ e, .joined n e ∈ notes ++ note.toList) ∨ (p'.jobs.map Job.mode)[n]? = some .inline := by
      intro i job hi hnew n hn
      rw [Resolution.begin, List.map_append, List.mem_append] at hn
      rcases hn with hn | hn
      · exact hold n hn
      · rw [List.mem_singleton.mp hn]
        rw [(hp.linked.works i job hi).1]
        exact hnew
    cases hmove with
    | resolution =>
      intro n hn
      refine hold n ?_
      rw [← (onward_step ..).inlinings]
      exact hn
    | @joined i job world hi =>
      exact hbegin i job hi (Or.inl ⟨_, List.mem_append_right _ (List.mem_singleton_self _)⟩)
    | @begun i job hi hphase hmode =>
      refine hbegin i job hi (Or.inr ?_)
      rw [hmodes, List.getElem?_map, hi, Option.map_some, hmode]
    | _ => exact hold

/-- A move of the pipeline is a poll of its resolution, the beginning of an inlining, or leaves the
resolution as it is but for the world. -/
theorem Move.resolution_cases {task : Task} {note : Option Note} (h : Move p task note p') :
    (∃ t, Resolution.CanStep p.resolution t ∧ p'.resolution = Resolution.step t p.resolution) ∨
    (∃ (i : Nat) (job : Job) (world : World), p.jobs[i]? = some job ∧ job.phase = .delayed 0 ∧
      p'.resolution = { p.resolution with world }.begin job.load) ∨
    ∃ world, p'.resolution = { p.resolution with world } := by
  cases h with
  | resolution hcan => exact Or.inl ⟨_, hcan, rfl⟩
  | joined hi hphase _ => exact Or.inr (Or.inl ⟨_, _, _, hi, hphase, rfl⟩)
  | begun hi hphase _ => exact Or.inr (Or.inl ⟨_, _, p.resolution.world, hi, hphase, rfl⟩)
  | deferred | left | compiling => exact Or.inr (Or.inr ⟨_, rfl⟩)
  | waited | inlined | resolved | failed | finished | compiled | answered =>
    exact Or.inr (Or.inr ⟨p.resolution.world, rfl⟩)

/-- The resolution of a pipeline comes about as long as the loader finds the same on the disk. -/
theorem Reached.resolution (h : Reached setup setup.library.SameOn loads notes p) :
    Resolution.Reached setup.library loads p.resolution := by
  induction h with
  | start => exact .start
  | submit mode load delay _ ih => exact ih.submit load
  | @elsewhere loads notes p disk kind _ hallowed ih =>
    exact ih.elsewhere { p.resolution.world with disk } hallowed
  | poll hp hcan hallowed ih =>
    rcases (move_of_canStep hcan).resolution_cases with ⟨t, ht, heq⟩ |
      ⟨i, job, world, hi, hphase, heq⟩ | ⟨world, heq⟩
    · rw [heq]
      exact ih.poll ht
    · obtain ⟨hlt, hnew⟩ := hp.linked.unbegun hi hphase
      rw [disk, heq] at hallowed
      rw [heq]
      exact (ih.elsewhere world hallowed).begin job.load hlt hnew
    · rw [disk, heq] at hallowed
      rw [heq]
      exact ih.elsewhere world hallowed

end Pipeline

end StyleBatch
