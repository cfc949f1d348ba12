import StyleBatch.Pipeline
import StyleBatch.Proofs.Pipeline.Notes
import StyleBatch.Proofs.Resolution.Run

/-!
# Runs of a pipeline

A run submits loads and polls whatever can move, in any order; between two polls others may change
the disk and the compiler.  `Reached setup allowed loads notes p` says that `p` comes about by such
a run, with disks that are all `allowed`, and that `notes` is what was noted on the way.  The notes
are read off the states: `Pipeline.note p task` is what a poll of the task does that is worth a note.

* `Move`: all that a poll can do, with its note.
* `move_of_canStep`: every poll of a task that can move is one of these.
* `Reached.exists_of_split`, `Reached.exists_of_note`: a run can be cut at each of its notes.
* `reached_play`: submitting loads together and sweeping their jobs is a run.
-/

namespace StyleBatch

def Note.subject : Note → Nat
  | .deferred i => i
  | .joined i _ => i
  | .left i _ _ => i
  | .called i _ => i
  | .answered i _ _ => i

/-- The notes about one load. -/
def Notes.about (i : Nat) (notes : List Note) : List Note :=
  notes.filter fun note => decide (note.subject = i)

/-- What a poll of an invocation leads to. -/
def Invocation.note (i : Nat) (w : Workshop) (x : Invocation) : Option Note :=
  match x.phase with
  | .queued => some (.called i x.source)
  | .compiling call =>
    match call.pauses with
    | 0 => some (.answered i x.source (w.compiler.answer call))
    | _ + 1 => none
  | _ => none

theorem Invocation.note_idle {i : Nat} {w : Workshop} {x : Invocation} {note : Note}
    (h : x.note i w = some note) : Notes.Idle note ∧ note.subject = i := by
  rw [Invocation.note] at h
  split at h
  · cases h
    exact ⟨trivial, rfl⟩
  · split at h
    · cases h
      exact ⟨trivial, rfl⟩
    · cases h
  · cases h

/-- What a poll of a departure leads to. -/
def Departure.note (i : Nat) (b : Batching) (d : Departure) : Option Note :=
  match d.phase with
  | .queued => some (.left i d.contribution (d.contribution.leave b.batch).1)
  | .compiling x => x.note i b.workshop
  | .settled _ => none

namespace Pipeline

/-- What a poll of a job leads to. -/
def noteOfJob (p : Pipeline) (i : Nat) (job : Job) : Option Note :=
  match job.phase with
  | .delayed 0 =>
    match job.mode with
    | .inline => none
    | .translate =>
      match (p.batching.batch.register p.batching.settings (address p job) p.resolution.world).1 with
      | .deferred => some (.deferred i)
      | .joined e => some (.joined i e)
  | .leaving departure => departure.note i p.batching
  | _ => none

/-- What a poll of a task leads to. -/
def note (p : Pipeline) : Task → Option Note
  | .job i => p.jobs[i]?.bind (noteOfJob p i)
  | .resolution _ => none

/-- A task that a poll steps. -/
abbrev CanStep (p : Pipeline) (task : Task) : Prop :=
  machine.CanStep p task

/-- What a pipeline is started with. -/
structure Setup where
  config : Config
  loader : Loader
  compiler : Compiler
  disk : Disk

def Setup.start (setup : Setup) : Pipeline :=
  Pipeline.start setup.config setup.loader setup.compiler setup.disk

def Setup.library (setup : Setup) : Library :=
  ⟨setup.loader, setup.config.imports.extension, setup.disk⟩

/-- Others have changed the disk and the compiler. -/
def elsewhere (p : Pipeline) (disk : Disk) (kind : CompilerKind) : Pipeline :=
  let workshop := p.batching.workshop
  { withWorld p { p.resolution.world with disk } with
    batching := { p.batching with
      workshop := { workshop with compiler := { workshop.compiler with kind } } } }

/-- The states that come about after the loads were submitted, with the notes of the run. -/
inductive Reached (setup : Setup) (allowed : Disk → Prop) : List Load → List Note → Pipeline → Prop
  | start : Reached setup allowed [] [] setup.start
  | submit {loads : List Load} {notes : List Note} {p : Pipeline} (mode : Mode) (load : Load)
      (delay : Nat) : Reached setup allowed loads notes p →
      Reached setup allowed (loads ++ [load]) notes (submit mode load delay p)
  | poll {loads : List Load} {notes : List Note} {p : Pipeline} {task : Task} :
      Reached setup allowed loads notes p → CanStep p task → allowed (step task p).disk →
      Reached setup allowed loads (notes ++ (note p task).toList) (step task p)
  | elsewhere {loads : List Load} {notes : List Note} {p : Pipeline} (disk : Disk)
      (kind : CompilerKind) : Reached setup allowed loads notes p → allowed disk →
      Reached setup allowed loads notes (p.elsewhere disk kind)

/-! ## What a poll does -/

/-- The batch is the same but for what is not counted. -/
structure SameCounts (b b' : Batch) : Prop where
  epoch : b'.epoch = b.epoch
  outstanding : b'.outstanding = b.outstanding
  members : b'.members = b.members
  buffer : b'.buffer = b.buffer

theorem SameCounts.refl (b : Batch) : SameCounts b b :=
  ⟨rfl, rfl, rfl, rfl⟩

/-- A pause that goes on. -/
inductive Waits : JobPhase → JobPhase → Prop
  | delayed (pauses : Nat) : Waits (.delayed (pauses + 1)) (.delayed pauses)
  | settling (pauses : Nat) (source : Text) :
      Waits (.settling (pauses + 1) source) (.settling pauses source)

/-- The pipeline with another batch and another world. -/
def withBatch (p : Pipeline) (batch : Batch) (world : World) : Pipeline :=
  withWorld { p with batching := { p.batching with batch } } world

/-- What a poll of a task does, and what is noted of it. -/
inductive Move (p : Pipeline) : Task → Option Note → Pipeline → Prop
  | resolution {t : Resolution.Task} : Resolution.CanStep p.resolution t →
      Move p (.resolution t) none { p with resolution := Resolution.step t p.resolution }
  | waited {i : Nat} {job : Job} {phase : JobPhase} : p.jobs[i]? = some job →
      Waits job.phase phase → Move p (.job i) none (setJob p i phase)
  | deferred {i : Nat} {job : Job} {batch : Batch} {world : World} : p.jobs[i]? = some job →
      job.phase = .delayed 0 → job.mode = .translate → SameCounts p.batching.batch batch →
      Move p (.job i) (some (.deferred i)) (setJob (withBatch p batch world) i (.settled (.ok [])))
  | joined {i : Nat} {job : Job} {world : World} : p.jobs[i]? = some job →
      job.phase = .delayed 0 → job.mode = .translate →
      Move p (.job i) (some (.joined i p.batching.batch.join.epoch))
        (beginResolving (withBatch p p.batching.batch.join world) i job)
  /-- A load is inlined outside all batches. -/
  | begun {i : Nat} {job : Job} : p.jobs[i]? = some job → job.phase = .delayed 0 →
      job.mode = .inline → Move p (.job i) none (beginResolving p i job)
  | inlined {i k : Nat} {job : Job} {o : Outcome} : p.jobs[i]? = some job →
      job.phase = .resolving k → job.mode = .inline → p.resolution.inliningOutcome? k = some o →
      Move p (.job i) none (setJob p i (.settled o))
  | resolved {i k : Nat} {job : Job} {source : Text} (pauses : Nat) : p.jobs[i]? = some job →
      job.phase = .resolving k → job.mode = .translate →
      p.resolution.inliningOutcome? k = some (.ok source) →
      Move p (.job i) none (setJob p i (.settling pauses source))
  | failed {i k : Nat} {job : Job} {fault : Fault} : p.jobs[i]? = some job →
      job.phase = .resolving k → job.mode = .translate →
      p.resolution.inliningOutcome? k = some (.error fault) →
      Move p (.job i) none (beginLeaving p i job (.failure fault))
  | finished {i : Nat} {job : Job} {source : Text} : p.jobs[i]? = some job →
      job.phase = .settling 0 source → Move p (.job i) none (beginLeaving p i job (.source source))
  | left {i : Nat} {job : Job} {d : Departure} {phase : DeparturePhase} {batch : Batch}
      {world : World} : p.jobs[i]? = some job → job.phase = .leaving d → d.phase = .queued →
      SameCounts (d.contribution.leave p.batching.batch).2 batch →
      (phase = .settled [] ∨ ∃ closed, (d.contribution.leave p.batching.batch).1 = some closed ∧
        phase = .compiling { source := closed.source, address := d.address }) →
      Move p (.job i) (some (.left i d.contribution (d.contribution.leave p.batching.batch).1))
        (setJob (withBatch p batch world) i (.leaving { d with phase }))
  | compiling {i : Nat} {job : Job} {d : Departure} {x : Invocation} : p.jobs[i]? = some job →
      job.phase = .leaving d → d.phase = .compiling x → x.result? = none →
      Move p (.job i) (x.note i p.batching.workshop)
        (let (x', workshop, world) := x.step p.batching.workshop p.resolution.world
        setJob (withWorld { p with batching := { p.batching with workshop } } world) i
          (.leaving { d with phase := .compiling x' }))
  | compiled {i : Nat} {job : Job} {d : Departure} {x : Invocation} {text : Option Text}
      {batch : Batch} : p.jobs[i]? = some job → job.phase = .leaving d → d.phase = .compiling x →
      x.phase = .settled text → SameCounts p.batching.batch batch →
      Move p (.job i) none (setJob (withBatch p batch p.resolution.world) i
        (.leaving { d with phase := .settled (text.getD []) }))
  | answered {i : Nat} {job : Job} {d : Departure} {text : Text} : p.jobs[i]? = some job →
      job.phase = .leaving d → d.phase = .settled text →
      Move p (.job i) none (setJob p i (.settled (answerOf d text)))

/-- Admission defers a load or joins it to the batch. -/
theorem register_cases (settings : BatchSettings) (address : Text) (b : Batch) (world : World) :
    (∃ batch world', SameCounts b batch ∧
      b.register settings address world = (.deferred, batch, world')) ∨
    ∃ world', b.register settings address world = (.joined b.join.epoch, b.join, world') := by
  rw [Batch.register]
  split
  · refine Or.inl ⟨_, _, ?_, rfl⟩
    exact ⟨rfl, rfl, rfl, rfl⟩
  · refine Or.inr ?_
    by_cases hzero : b.outstanding = 0
    · simp only [Batch.join, hzero, if_true]
      exact ⟨_, rfl⟩
    · simp only [Batch.join, hzero, if_false]
      exact ⟨_, rfl⟩

theorem close_cases (d : Departure) (closed : ClosedBatch) (b : Batching) (world : World) :
    ∃ phase batch world', SameCounts b.batch batch ∧
      (phase = .settled [] ∨
        phase = .compiling { source := closed.source, address := d.address }) ∧
      d.close closed b world = ({ d with phase }, { b with batch }, world') := by
  rw [Departure.close]
  dsimp only
  split
  · exact ⟨_, b.batch, _, .refl _, Or.inr rfl, rfl⟩
  · split
    · refine ⟨_, _, _, ?_, Or.inl rfl, rfl⟩
      exact ⟨rfl, rfl, rfl, rfl⟩
    · refine ⟨_, _, _, ?_, Or.inr rfl, rfl⟩
      exact ⟨rfl, rfl, rfl, rfl⟩

/-- Leaving counts as noted, and compiles at most what it takes along. -/
theorem leave_cases (d : Departure) (b : Batching) (world : World) :
    ∃ phase batch world', SameCounts (d.contribution.leave b.batch).2 batch ∧
      (phase = .settled [] ∨ ∃ closed, (d.contribution.leave b.batch).1 = some closed ∧
        phase = .compiling { source := closed.source, address := d.address }) ∧
      d.leave b world = ({ d with phase }, { b with batch }, world') := by
  obtain ⟨address, contribution, start⟩ := d
  have hclose : ∀ closed world, (contribution.leave b.batch).1 = some closed →
      ∃ phase batch world', SameCounts (contribution.leave b.batch).2 batch ∧
        (phase = .settled [] ∨ ∃ closed, (contribution.leave b.batch).1 = some closed ∧
          phase = .compiling { source := closed.source, address }) ∧
        Departure.close ⟨address, contribution, start⟩ closed
          { b with batch := (contribution.leave b.batch).2 } world =
          (⟨address, contribution, phase⟩, { b with batch }, world') := by
    intro closed world hclosed
    obtain ⟨phase, batch, world', hsame, hphase, heq⟩ := close_cases
      ⟨address, contribution, start⟩ closed { b with batch := (contribution.leave b.batch).2 } world
    exact ⟨phase, batch, world', hsame, hphase.imp_right fun h => ⟨closed, hclosed, h⟩, heq⟩
  have hnone : (contribution.leave b.batch).1 = none ∨
      ∃ closed, (contribution.leave b.batch).1 = some closed := by
    cases (contribution.leave b.batch).1 with
    | none => exact Or.inl rfl
    | some closed => exact Or.inr ⟨closed, rfl⟩
  cases contribution with
  | source t =>
    have hleave : { b.batch with buffer := b.batch.buffer ++ t }.leave =
      (Contribution.source t).leave b.batch := rfl
    simp only [Departure.leave, hleave]
    rcases hnone with hclosed | ⟨closed, hclosed⟩
    · rw [hclosed]
      exact ⟨_, _, world, .refl _, Or.inl rfl, rfl⟩
    · obtain ⟨phase, batch, world', hsame, hphase, heq⟩ := hclose closed world hclosed
      refine ⟨phase, batch, world', hsame, hphase, ?_⟩
      rw [hclosed]
      exact heq
  | failure fault =>
    have hleave : b.batch.leave = (Contribution.failure fault).leave b.batch := by
      rw [Contribution.leave, Contribution.text, List.append_nil]
    simp only [Departure.leave, hleave]
    rcases hnone with hclosed | ⟨closed, hclosed⟩
    · rw [hclosed]
      exact ⟨_, _, _, .refl _, Or.inl rfl, rfl⟩
    · by_cases hempty : closed.source.isEmpty
      · rw [hclosed]
        simp only [hempty, if_true]
        exact ⟨_, _, _, .refl _, Or.inl rfl, rfl⟩
      · obtain ⟨phase, batch, world', hsame, hphase, heq⟩ := hclose closed _ hclosed
        refine ⟨phase, batch, world', hsame, hphase, ?_⟩
        rw [hclosed]
        simp only [hempty]
        exact heq

theorem canStep_resolution {p : Pipeline} {t : Resolution.Task} :
    CanStep p (.resolution t) ↔ Resolution.CanStep p.resolution t := by
  have hlift : ∀ standing : Standing Resolution.Task,
      (lift standing = .ready ∨ lift standing = .asleep) ↔
        (standing = .ready ∨ standing = .asleep) := by
    intro standing
    cases standing <;> simp [lift]
  exact hlift _

/-- Every poll of a job that can move is a move. -/
theorem move_of_job {p : Pipeline} {i : Nat} {job : Job} (hi : p.jobs[i]? = some job)
    (hcan : standingOfJob p job = .ready ∨ standingOfJob p job = .asleep) :
    Move p (.job i) (noteOfJob p i job) (stepJob p i job) := by
  rw [noteOfJob, stepJob]
  cases hphase : job.phase with
  | delayed pauses =>
    cases pauses with
    | succ pauses => exact .waited hi (hphase ▸ .delayed pauses)
    | zero =>
      cases hmode : job.mode with
      | inline => exact .begun hi hphase hmode
      | translate =>
        rcases register_cases p.batching.settings (address p job) p.batching.batch
          p.resolution.world with ⟨batch, world, hsame, heq⟩ | ⟨world, heq⟩
        · simp only [heq]
          exact .deferred hi hphase hmode hsame
        · simp only [heq]
          exact .joined hi hphase hmode
  | resolving k =>
    dsimp only
    cases ho : p.resolution.inliningOutcome? k with
    | none => simp [standingOfJob, hphase, ho] at hcan
    | some o =>
      dsimp only
      cases hmode : job.mode with
      | inline => exact .inlined hi hphase hmode ho
      | translate =>
        cases o with
        | ok source => exact .resolved _ hi hphase hmode ho
        | error fault => exact .failed hi hphase hmode ho
  | settling pauses source =>
    cases pauses with
    | succ pauses => exact .waited hi (hphase ▸ .settling pauses source)
    | zero => exact .finished hi hphase
  | leaving d =>
    cases hd : d.phase with
    | queued =>
      obtain ⟨phase, batch, world, hsame, hcases, heq⟩ :=
        leave_cases d p.batching p.resolution.world
      simp only [Departure.result?, Departure.note, Departure.step, hd, heq]
      exact .left hi hphase hd hsame hcases
    | compiling x =>
      cases hx : x.phase with
      | settled text =>
        cases text with
        | none =>
          have hmove := Move.compiled hi hphase hd hx (.refl _)
          simp only [Departure.result?, Departure.note, Departure.step, Invocation.note,
            Invocation.result?, hd, hx]
          exact hmove
        | some text =>
          simp only [Departure.result?, Departure.note, Departure.step, Invocation.note,
            Invocation.result?, hd, hx]
          exact .compiled hi hphase hd hx ⟨rfl, rfl, rfl, rfl⟩
      | _ =>
        have hmove := Move.compiling hi hphase hd (by rw [Invocation.result?, hx])
        simp only [Departure.result?, Departure.note, Departure.step, Invocation.result?, hd, hx]
        exact hmove
    | settled text =>
      have hmove := Move.answered hi hphase hd
      simp only [Departure.result?, Departure.note, hd]
      exact hmove
  | settled o => simp [standingOfJob, hphase] at hcan

/-- Every poll of a task that can move is a move. -/
theorem move_of_canStep {p : Pipeline} {task : Task} (h : CanStep p task) :
    Move p task (note p task) (step task p) := by
  cases task with
  | resolution t => exact .resolution (canStep_resolution.mp h)
  | job i =>
    rw [note, step]
    cases hi : p.jobs[i]? with
    | none =>
      have hstanding : machine.standing p (.job i) = .settled := by
        simp [machine, standing, hi]
      rcases h with h | h <;> rw [hstanding] at h <;> cases h
    | some job =>
      have hstanding : machine.standing p (.job i) = standingOfJob p job := by
        simp [machine, standing, hi]
      exact move_of_job hi (h.imp hstanding.symm.trans hstanding.symm.trans)

theorem Move.of_joined {p p' : Pipeline} {task : Task} {i e : Nat}
    (h : Move p task (some (.joined i e)) p') : e = p.batching.batch.join.epoch := by
  generalize hnote : some (Note.joined i e) = note at h
  cases h with
  | joined =>
    cases hnote
    rfl
  | compiling => exact (Invocation.note_idle hnote.symm).1.elim
  | _ => cases hnote

theorem Move.of_left {p p' : Pipeline} {task : Task} {i : Nat} {c : Contribution}
    {closed : Option ClosedBatch} (h : Move p task (some (.left i c closed)) p') :
    closed = (c.leave p.batching.batch).1 ∧ ∃ job d, p.jobs[i]? = some job ∧
      job.phase = .leaving d ∧ d.phase = .queued ∧ d.contribution = c := by
  generalize hnote : some (Note.left i c closed) = note at h
  cases h with
  | left hi hphase hd =>
    cases hnote
    exact ⟨rfl, _, _, hi, hphase, hd, rfl⟩
  | compiling => exact (Invocation.note_idle hnote.symm).1.elim
  | _ => cases hnote

/-! ## Cutting runs -/

section

variable {setup : Setup} {allowed : Disk → Prop} {loads : List Load} {notes : List Note}
  {p : Pipeline}

/-- A run goes through a state at each of its notes, and what later states keep of earlier ones they
keep of it. -/
theorem Reached.exists_of_split {R : Pipeline → Pipeline → Prop}
    (h : Reached setup allowed loads notes p) (hrefl : ∀ q, R q q)
    (hsubmit : ∀ q p mode load delay, R q p → R q (Pipeline.submit mode load delay p))
    (hpoll : ∀ q loads notes p task, Reached setup allowed loads notes p → CanStep p task →
      R q p → R q (step task p))
    (helsewhere : ∀ q p disk kind, R q p → R q (p.elsewhere disk kind)) {before after : List Note}
    {x : Note} (heq : notes = before ++ x :: after) :
    ∃ (loads' : List Load) (q q' : Pipeline) (task : Task), loads' <+: loads ∧
      Reached setup allowed loads' before q ∧ Move q task (some x) q' ∧
      Reached setup allowed loads' (before ++ [x]) q' ∧ R q' p := by
  induction h generalizing after with
  | start => simp at heq
  | submit mode load delay _ ih =>
    obtain ⟨loads', q, q', task, hprefix, hq, hmove, hq', hR⟩ := ih heq
    exact ⟨loads', q, q', task, hprefix.trans (List.prefix_append ..), hq, hmove, hq',
      hsubmit _ _ _ _ _ hR⟩
  | elsewhere disk kind _ _ ih =>
    obtain ⟨loads', q, q', task, hprefix, hq, hmove, hq', hR⟩ := ih heq
    exact ⟨loads', q, q', task, hprefix, hq, hmove, hq', helsewhere _ _ _ _ hR⟩
  | @poll loads notes p task hp hcan hallowed ih =>
    have hearlier : ∀ {after}, notes = before ++ x :: after →
        ∃ (loads' : List Load) (q q' : Pipeline) (task' : Task), loads' <+: loads ∧
          Reached setup allowed loads' before q ∧ Move q task' (some x) q' ∧
          Reached setup allowed loads' (before ++ [x]) q' ∧ R q' (step task p) := by
      intro after heq
      obtain ⟨loads', q, q', task', hprefix, hq, hmove, hq', hR⟩ := ih heq
      exact ⟨loads', q, q', task', hprefix, hq, hmove, hq', hpoll _ _ _ _ _ hp hcan hR⟩
    cases hnote : note p task with
    | none =>
      rw [hnote, Option.toList_none, List.append_nil] at heq
      exact hearlier heq
    | some y =>
      rw [hnote, Option.toList_some] at heq
      have hmove := move_of_canStep hcan
      rw [hnote] at hmove
      rcases List.eq_nil_or_concat after with rfl | ⟨after, z, rfl⟩
      · obtain ⟨rfl, hy⟩ := List.append_inj' heq rfl
        cases hy
        refine ⟨loads, p, step task p, task, List.prefix_rfl, hp, hmove, ?_, hrefl _⟩
        have hreached := hp.poll hcan hallowed
        rw [hnote] at hreached
        exact hreached
      · rw [List.concat_eq_append, ← List.cons_append, ← List.append_assoc] at heq
        obtain ⟨heq, -⟩ := List.append_inj' heq rfl
        exact hearlier heq

/-- A run goes through a state at each of its notes. -/
theorem Reached.exists_of_note (h : Reached setup allowed loads notes p) {before after : List Note}
    {x : Note} (heq : notes = before ++ x :: after) :
    ∃ (loads' : List Load) (q q' : Pipeline) (task : Task), Reached setup allowed loads' before q ∧
      Move q task (some x) q' := by
  obtain ⟨loads', q, q', task, -, hq, hmove, -⟩ := h.exists_of_split (R := fun _ _ => True)
    (fun _ => trivial) (fun _ _ _ _ _ _ => trivial) (fun _ _ _ _ _ _ _ _ => trivial)
    (fun _ _ _ _ _ => trivial) heq
  exact ⟨loads', q, q', task, hq, hmove⟩

end

/-! ## All loads at once -/

/-- Polls that are noted. -/
def noted : Machine (List Note × Pipeline) Task where
  standing run task := standing run.2 task
  step task run := (run.1 ++ (note run.2 task).toList, step task run.2)

section Play

variable (setup : Setup) (loads : List (Load × Nat))

/-- A pipeline in which loads have been submitted, with their delays. -/
def submitted : Pipeline :=
  loads.foldl (fun p (load, delay) => submit .translate load delay p) setup.start

/-- The loads swept until nothing moves, in at most `fuel` rounds of that depth. -/
def play (fuel : Nat) : List Note × Pipeline :=
  noted.settle fuel (.resolution .disk :: (List.range loads.length).map Task.job) fuel
    ([], submitted setup loads)

theorem reached_submitted {allowed : Disk → Prop} :
    Reached setup allowed (loads.map Prod.fst) [] (submitted setup loads) := by
  induction loads using List.reverseRecOn with
  | nil => exact .start
  | append_singleton loads load ih =>
    rw [submitted, List.foldl_append, List.map_append]
    exact ih.submit .translate load.1 load.2

theorem reached_play {allowed : Disk → Prop} (hallowed : ∀ disk, allowed disk) (fuel : Nat) :
    Reached setup allowed (loads.map Prod.fst) (play setup loads fuel).1
      (play setup loads fuel).2 := by
  refine Machine.settle_keeps (m := noted)
    (P := fun run => Reached setup allowed (loads.map Prod.fst) run.1 run.2) ?_ fuel _ fuel _
    (reached_submitted setup loads)
  exact fun run task h hcan => h.poll hcan (hallowed _)

end Play

end Pipeline

end StyleBatch
