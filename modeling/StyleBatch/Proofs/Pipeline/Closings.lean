import StyleBatch.Proofs.Pipeline.Leaving

/-!
# Closed batches and calls of the compiler

All that batches and the compiler see of a run is done by members on their way out; every other step
leaves the workshop, the disk and what is said about batches as they are, and is noted only when it
admits a load.

* `Pipeline.leaving_or_apart`: a step is one of a member on its way out, or apart from all that.
* `Pipeline.Run.equipped`: what a run leaves as it was set up.
* `Pipeline.Run.calls`: the compiler's calls are the ones that were noted.
-/

namespace StyleBatch

open Notes

/-- A batch that was closed, and by which load. -/
structure Closing where
  load : Nat
  batch : ClosedBatch
deriving DecidableEq

namespace Note

/-- The note says that a batch was closed. -/
def closing? : Note → Option Closing
  | left i c closed => (closed.filter c.closes).map fun closed => ⟨i, closed⟩
  | _ => none

/-- The note is about an admission. -/
def isAdmission : Note → Bool
  | deferred _ | joined .. => true
  | _ => false

end Note

namespace Notes

/-- The batches that were closed, in their order. -/
def closings (notes : List Note) : List Closing :=
  notes.filterMap Note.closing?

/-- The sources that the compiler was called on. -/
def called (notes : List Note) : List Text :=
  notes.filterMap fun
    | .called _ source => some source
    | _ => none

theorem closings_append (notes more : List Note) :
    closings (notes ++ more) = closings notes ++ closings more :=
  List.filterMap_append

theorem called_append (notes more : List Note) :
    called (notes ++ more) = called notes ++ called more :=
  List.filterMap_append

theorem mem_closings {notes : List Note} {i : Nat} {closed : ClosedBatch} :
    ⟨i, closed⟩ ∈ closings notes ↔
      ∃ c, .left i c (some closed) ∈ notes ∧ c.closes closed = true := by
  rw [closings, List.mem_filterMap]
  constructor
  · rintro ⟨note, hnote, hclosing⟩
    cases note with
    | left j c closed' =>
      simp only [Note.closing?, Option.map_eq_some_iff, Option.filter_eq_some_iff] at hclosing
      obtain ⟨_, ⟨rfl, hcloses⟩, heq⟩ := hclosing
      cases heq
      exact ⟨c, hnote, hcloses⟩
    | _ => cases hclosing
  · rintro ⟨c, hnote, hcloses⟩
    exact ⟨_, hnote, by simp [Note.closing?, Option.filter, hcloses]⟩

theorem closings_of_isAdmission {note : Note} (h : note.isAdmission = true) :
    closings [note] = [] := by
  cases note <;> first | rfl | cases h

theorem called_of_isAdmission {note : Note} (h : note.isAdmission = true) : called [note] = [] := by
  cases note <;> first | rfl | cases h

end Notes

namespace Invocation

variable {i : Nat} {w w' : Workshop} {world world' : World} {x x' : Invocation}
  {note : Option Note} {storing : Option Storing}

theorem Does.source (h : Does i w world x note storing (x', w', world')) : x'.source = x.source := by
  cases h <;> rfl

theorem Does.address (h : Does i w world x note storing (x', w', world')) :
    x'.address = x.address := by
  cases h <;> rfl

theorem Does.environment (h : Does i w world x note storing (x', w', world')) :
    w'.environment = w.environment ∧ w'.artifact = w.artifact := by
  cases h <;> exact ⟨rfl, rfl⟩

theorem Does.batchEvents (h : Does i w world x note storing (x', w', world')) :
    world'.log.batchEvents = world.log.batchEvents := by
  cases h with
  | waited | called | made | opened | unopened | filled => rfl
  | _ => exact Log.batchEvents_emit_of_not rfl _

/-- The compiler is called as noted. -/
theorem Does.calls (h : Does i w world x note storing (x', w', world')) :
    w'.compiler.calls = w.compiler.calls ++ Notes.called note.toList := by
  have hnone : ∀ calls : List Text, calls = calls ++ Notes.called (none : Option Note).toList :=
    fun calls => (List.append_nil calls).symm
  cases h with
  | called hphase hcall =>
    obtain ⟨⟨kind, calls⟩, environment, artifact⟩ := w
    cases kind with
    | echo before failure =>
      cases hcall
      rfl
    | scripted replies =>
      cases replies <;> cases hcall <;> rfl
    | program programs name arguments =>
      cases hcall
      rfl
  | _ => exact hnone _

end Invocation

namespace Pipeline

/-- Whatever is noted is about one of the jobs. -/
theorem Chronicle.subject_lt {notes : List Note} {p : Pipeline} (h : Chronicle notes p) {x : Note}
    (hx : x ∈ notes) : x.subject < p.jobs.length := by
  rw [← Nat.not_le]
  intro hle
  have hown : x ∈ about x.subject notes := mem_about.mpr ⟨hx, rfl⟩
  rw [h.absent _ hle] at hown
  cases hown

/-- The load numbered `i` is on its way out. -/
def Leaving (p : Pipeline) (i : Nat) (d : Departure) : Prop :=
  (∃ job, p.jobs[i]? = some job ∧ job.phase = .leaving d) ∧ d.result? = none

/-- The pipeline after the load numbered `i` has come to `out` on its way. -/
def went (p : Pipeline) (i : Nat) (out : Departure × Batching × World) : Pipeline :=
  setJob (withWorld { p with batching := out.2.1 } out.2.2) i (.leaving out.1)

theorem step_of_leaving {p : Pipeline} {i : Nat} {d : Departure} (h : Leaving p i d) :
    step (.job i) p = went p i (d.step p.batching p.resolution.world) ∧
      note p (.job i) = d.note i p.batching ∧
      storing p (.job i) = d.storing i p.batching p.resolution.world := by
  obtain ⟨⟨job, hi, hphase⟩, hd⟩ := h
  simp only [step, note, storing, noteOfJob, stepJob, hi, hphase, hd, Option.bind_some]
  exact ⟨rfl, trivial, trivial⟩

/-- What has to do with batches, the compiler and the artifact is the same. -/
structure SameBooks (p p' : Pipeline) : Prop where
  environment : p'.batching.environment = p.batching.environment
  settings : p'.batching.settings = p.batching.settings
  workshop : p'.batching.workshop = p.batching.workshop
  hasCompiled : p'.batching.batch.hasCompiled = p.batching.batch.hasCompiled
  disk : p'.disk = p.disk
  batchEvents : p'.log.batchEvents = p.log.batchEvents
  addresses : p'.resolution.loads.map Load.address = p.resolution.loads.map Load.address

theorem SameBooks.of_eq {p p' : Pipeline} (hbatching : p'.batching = p.batching)
    (hworld : p'.resolution.world = p.resolution.world)
    (hloads : p'.resolution.loads = p.resolution.loads) : SameBooks p p' where
  environment := by rw [hbatching]
  settings := by rw [hbatching]
  workshop := by rw [hbatching]
  hasCompiled := by rw [hbatching]
  disk := by simp only [Pipeline.disk, hworld]
  batchEvents := by simp only [Pipeline.log, hworld]
  addresses := by rw [hloads]

/-- What admission leaves as it is. -/
theorem register_books (settings : BatchSettings) (address : Text) (b : Batch) (world : World) :
    (b.register settings address world).2.1.hasCompiled = b.hasCompiled ∧
      (b.register settings address world).2.2.disk = world.disk ∧
      (b.register settings address world).2.2.log.batchEvents = world.log.batchEvents := by
  rw [Batch.register]
  split
  · exact ⟨rfl, rfl, Log.batchEvents_emit_of_not rfl _⟩
  · refine ⟨?_, rfl, Log.batchEvents_emit_of_not rfl _⟩
    dsimp only
    split <;> rfl

/-- A step is apart from batches, the compiler and the artifact; at most it admits a load. -/
structure Apart (p : Pipeline) (task : Task) : Prop where
  books : SameBooks p (step task p)
  storing : storing p task = none
  note : ∀ x, note p task = some x → x.isAdmission = true
  answered : ∀ i job d, task = .job i → p.jobs[i]? = some job → job.phase = .leaving d →
    d.result? ≠ none

variable {p : Pipeline}

theorem sameBooks_stepJob {i : Nat} {job : Job}
    (hnot : ∀ d, job.phase = .leaving d → d.result? ≠ none) : SameBooks p (stepJob p i job) := by
  rw [stepJob]
  split
  · exact .of_eq rfl rfl rfl
  · split
    · exact .of_eq rfl rfl rfl
    · obtain ⟨hcompiled, hdisk, hevents⟩ := register_books p.batching.settings (address p job)
        p.batching.batch p.resolution.world
      dsimp only
      split <;> exact ⟨rfl, rfl, rfl, hcompiled, hdisk, hevents, rfl⟩
  · split
    · exact .of_eq rfl rfl rfl
    · split <;> exact .of_eq rfl rfl rfl
  · exact .of_eq rfl rfl rfl
  · exact .of_eq rfl rfl rfl
  · split
    · exact .of_eq rfl rfl rfl
    · rename_i d hphase _ hd
      exact absurd hd (hnot d hphase)
  · exact .of_eq rfl rfl rfl

theorem isAdmission_of_noteOfJob {i : Nat} {job : Job}
    (hnot : ∀ d, job.phase = .leaving d → d.result? ≠ none) {x : Note}
    (h : noteOfJob p i job = some x) : x.isAdmission = true := by
  rw [noteOfJob] at h
  split at h
  · split at h
    · cases h
    · split at h <;> cases h <;> rfl
  · rename_i d hphase
    have hd := hnot d hphase
    rw [Departure.note] at h
    split at h
    · rename_i hqueued
      simp [Departure.result?, hqueued] at hd
    · rename_i hcompiling
      simp [Departure.result?, hcompiling] at hd
    · cases h
  · cases h

/-- A step is one of a member on its way out, or apart from all that. -/
theorem leaving_or_apart (p : Pipeline) (task : Task) :
    (∃ i d, task = .job i ∧ Leaving p i d) ∨ Apart p task := by
  cases task with
  | resolution t =>
    have haloof := Resolution.aloof_step p.resolution t
    have hbooks : SameBooks p (step (.resolution t) p) :=
      ⟨rfl, rfl, rfl, rfl, haloof.disk, haloof.batchEvents, haloof.addresses⟩
    refine Or.inr ⟨hbooks, rfl, ?_, ?_⟩
    · exact fun _ h => nomatch h
    · exact fun _ _ _ h => nomatch h
  | job i =>
    cases hi : p.jobs[i]? with
    | none =>
      refine Or.inr ⟨?_, ?_, fun x h => ?_, ?_⟩
      · simp only [step, hi]
        exact .of_eq rfl rfl rfl
      · simp [Pipeline.storing, hi]
      · simp [Pipeline.note, hi] at h
      · rintro i' job d ⟨⟩ hi'
        rw [hi] at hi'
        cases hi'
    | some job =>
      by_cases hleaving : ∃ d, job.phase = .leaving d ∧ d.result? = none
      · obtain ⟨d, hphase, hd⟩ := hleaving
        exact Or.inl ⟨i, d, rfl, ⟨job, hi, hphase⟩, hd⟩
      · have hnot : ∀ d, job.phase = .leaving d → d.result? ≠ none :=
          fun d hphase hd => hleaving ⟨d, hphase, hd⟩
        refine Or.inr ⟨?_, ?_, fun x h => ?_, ?_⟩
        · simp only [step, hi]
          exact sameBooks_stepJob hnot
        · simp only [Pipeline.storing, hi, Option.bind_some]
          split
          · rename_i d hphase
            have hd := hnot d hphase
            rw [Departure.storing]
            split
            · rename_i x hcompiling
              simp [Departure.result?, hcompiling] at hd
            · rfl
          · rfl
        · simp only [Pipeline.note, hi, Option.bind_some] at h
          exact isAdmission_of_noteOfJob hnot h
        · rintro i' job' d ⟨⟩ hi' hphase
          rw [hi] at hi'
          cases hi'
          exact hnot d hphase

/-- No step of these closes a batch. -/
theorem Apart.closings {task : Task} (h : Apart p task) :
    closings (Pipeline.note p task).toList = [] := by
  cases hnote : Pipeline.note p task with
  | none => rfl
  | some x => exact closings_of_isAdmission (h.note x hnote)

/-- No step of these calls the compiler. -/
theorem Apart.called {task : Task} (h : Apart p task) :
    called (Pipeline.note p task).toList = [] := by
  cases hnote : Pipeline.note p task with
  | none => rfl
  | some x => exact called_of_isAdmission (h.note x hnote)

/-! ## Runs -/

/-- What a member on its way out leaves as it is. -/
structure SameRoom (b b' : Batching) : Prop where
  environment : b'.environment = b.environment
  settings : b'.settings = b.settings
  workshop : b'.workshop.environment = b.workshop.environment
  artifact : b'.workshop.artifact = b.workshop.artifact

end Pipeline

namespace Departure.Goes

open Pipeline

variable {d : Departure} {b : Batching} {world : World} {out : Departure × Batching × World}

theorem sameRoom (h : Goes d b world out) : SameRoom b out.2.1 := by
  cases h with
  | @invoked x hphase hx =>
    have hdoes := x.does_step 0 b.workshop world hx
    exact ⟨rfl, rfl, hdoes.environment.1, hdoes.environment.2⟩
  | _ => exact ⟨rfl, rfl, rfl, rfl⟩

theorem contribution (h : Goes d b world out) : out.1.contribution = d.contribution := by
  cases h <;> rfl

/-- The compiler is called as noted. -/
theorem calls (h : Goes d b world out) (i : Nat) :
    out.2.1.workshop.compiler.calls =
      b.workshop.compiler.calls ++ Notes.called (d.note i b).toList := by
  have hnone : ∀ calls : List Text, calls = calls ++ Notes.called (none : Option Note).toList :=
    fun calls => (List.append_nil calls).symm
  cases h with
  | left hphase | closed hphase | skipped hphase =>
    rw [Departure.note, hphase]
    exact hnone _
  | @invoked x hphase hx =>
    rw [Departure.note, hphase]
    exact (x.does_step i b.workshop world hx).calls
  | failed hphase hx | compiled hphase hx =>
    simp only [Departure.note, hphase, Invocation.note, hx]
    exact hnone _

end Departure.Goes

namespace Pipeline

variable {setup : Setup} {acts : List Act}

/-- What a run leaves as it was set up. -/
structure Equipped (setup : Setup) (loads : List Load) (p : Pipeline) : Prop where
  environment : p.batching.environment = setup.config.environment
  settings : p.batching.settings = setup.config.batch
  workshop : p.batching.workshop.environment = setup.config.environment
  artifact : p.batching.workshop.artifact = setup.config.artifact
  addresses : p.resolution.loads.map Load.address = loads.map Load.address

theorem Run.equipped (h : Run setup acts) :
    Equipped setup (submissions acts) (setup.after acts) := by
  induction h with
  | start => exact ⟨rfl, rfl, rfl, rfl, rfl⟩
  | @act acts act _ hpossible ih =>
    rw [after_concat, submissions_append]
    cases act with
    | submit mode load delay =>
      refine ⟨ih.environment, ih.settings, ih.workshop, ih.artifact, ?_⟩
      change ((setup.after acts).resolution.loads ++ [load]).map Load.address = _
      rw [List.map_append, List.map_append, ih.addresses]
      rfl
    | elsewhere disk kind =>
      refine ⟨ih.environment, ih.settings, ih.workshop, ih.artifact, ?_⟩
      rw [List.map_append]
      exact ih.addresses.trans (List.append_nil _).symm
    | step task =>
      have hnone : submissions [.step task] = [] := rfl
      rw [hnone, List.append_nil, Act.apply]
      rcases leaving_or_apart (setup.after acts) task with ⟨i, d, rfl, hleaving⟩ | hapart
      · obtain ⟨hstep, -⟩ := step_of_leaving hleaving
        have hgoes := d.goes_step (setup.after acts).batching (setup.after acts).resolution.world
          hleaving.2
        rw [hstep]
        exact ⟨hgoes.sameRoom.environment.trans ih.environment,
          hgoes.sameRoom.settings.trans ih.settings, hgoes.sameRoom.workshop.trans ih.workshop,
          hgoes.sameRoom.artifact.trans ih.artifact, ih.addresses⟩
      · have hbooks := hapart.books
        exact ⟨hbooks.environment.trans ih.environment, hbooks.settings.trans ih.settings,
          by rw [hbooks.workshop, ih.workshop], by rw [hbooks.workshop, ih.artifact],
          hbooks.addresses.trans ih.addresses⟩

/-- The compiler is called as noted. -/
theorem Run.calls (h : Run setup acts) : (setup.after acts).batching.workshop.compiler.calls =
    setup.compiler.calls ++ called (setup.notes acts) := by
  induction h with
  | start => exact (List.append_nil _).symm
  | @act acts act _ hpossible ih =>
    rw [after_concat, notes_concat, called_append, ← List.append_assoc, ← ih]
    cases act with
    | submit | elsewhere => exact (List.append_nil _).symm
    | step task =>
      rw [Act.apply, Act.read]
      rcases leaving_or_apart (setup.after acts) task with ⟨i, d, rfl, hleaving⟩ | hapart
      · obtain ⟨hstep, hnote, -⟩ := step_of_leaving hleaving
        rw [hstep, hnote]
        exact (d.goes_step (setup.after acts).batching _ hleaving.2).calls i
      · rw [hapart.books.workshop, hapart.called, List.append_nil]

end Pipeline

end StyleBatch
