import StyleBatch.Batch
import StyleBatch.Resolution

/-!
# The pipeline

A job takes a load through admission, resolution, the pause before leaving and the
batch. Jobs run beside each other over one resolution and one batch.
-/

namespace StyleBatch

namespace Pipeline

inductive Mode where
  /-- Admission, resolution, batch and compile. -/
  | translate
  /-- Resolution alone. -/
  | inline
deriving DecidableEq, Repr

inductive JobPhase where
  | delayed (pauses : Nat)
  | resolving (inlining : Nat)
  | settling (pauses : Nat) (source : Text)
  /-- Leaves the batch; the answer is the given fault or what leaving returns. -/
  | leaving (departure : Departure)
  | settled (outcome : Outcome)
deriving DecidableEq, Repr

/-- What is done with the load numbered `load`. -/
structure Job where
  load : Nat
  mode : Mode
  phase : JobPhase
deriving DecidableEq, Repr

inductive Task where
  | job (i : Nat)
  | resolution (t : Resolution.Task)
deriving DecidableEq, Repr

end Pipeline

structure Pipeline where
  resolution : Resolution
  batching : Batching
  jobs : List Pipeline.Job := []

namespace Pipeline

/-- A pipeline before any load. -/
def start (config : Config) (loader : Loader) (compiler : Compiler) (disk : Disk) : Pipeline where
  resolution := Resolution.start loader config.imports.extension disk
  batching :=
    { settings := config.batch, environment := config.environment,
      workshop := ⟨compiler, config.environment, config.artifact⟩ }

def log (p : Pipeline) : Log :=
  p.resolution.world.log

def disk (p : Pipeline) : Disk :=
  p.resolution.world.disk

def withWorld (p : Pipeline) (world : World) : Pipeline :=
  { p with resolution := { p.resolution with world } }

def setJob (p : Pipeline) (i : Nat) (phase : JobPhase) : Pipeline :=
  { p with jobs := p.jobs.modify i fun job => { job with phase } }

/-- The answer of a job, once it is there. -/
def outcome? (p : Pipeline) (i : Nat) : Option Outcome :=
  match p.jobs[i]? with
  | some ⟨_, _, .settled outcome⟩ => some outcome
  | _ => none

def address (p : Pipeline) (job : Job) : Text :=
  match p.resolution.loads[job.load]? with
  | some load => load.address
  | none => []

/-- A standing among resolution tasks, seen from the pipeline. -/
def lift : Standing Resolution.Task → Standing Task
  | .settled => .settled
  | .asleep => .asleep
  | .ready => .ready
  | .waiting on => .waiting (on.map Task.resolution)

def standingOfJob (p : Pipeline) (job : Job) : Standing Task :=
  match job.phase with
  | .delayed 0 => .ready
  | .delayed (_ + 1) => .asleep
  | .resolving i =>
    match p.resolution.inliningOutcome? i with
    | some _ => .ready
    | none => .waiting [.resolution (.source (.inlining i))]
  | .settling 0 _ => .ready
  | .settling (_ + 1) _ => .asleep
  | .leaving departure =>
    match departure.standing with
    | .settled => .ready
    | standing => standing
  | .settled _ => .settled

def standing (p : Pipeline) : Task → Standing Task
  | .job i =>
    match p.jobs[i]? with
    | some job => standingOfJob p job
    | none => .settled
  | .resolution t => lift (Resolution.standing p.resolution t)

/-- Begins to inline the load of the job numbered `i`. -/
def beginResolving (p : Pipeline) (i : Nat) (job : Job) : Pipeline :=
  setJob { p with resolution := p.resolution.begin job.load } i
    (.resolving p.resolution.inlinings.length)

/-- A member leaves the batch. -/
def beginLeaving (p : Pipeline) (i : Nat) (job : Job) (contribution : Contribution) : Pipeline :=
  setJob p i (.leaving { address := address p job, contribution })

/-- The answer of a member that has left: its own fault, or the text it was given. -/
def answerOf (departure : Departure) (text : Text) : Outcome :=
  match departure.contribution with
  | .source _ => .ok text
  | .failure fault => .error fault

/-- One step of a job. -/
def stepJob (p : Pipeline) (i : Nat) (job : Job) : Pipeline :=
  match job.phase with
  | .delayed (pauses + 1) => setJob p i (.delayed pauses)
  | .delayed 0 =>
    match job.mode with
    | .inline => beginResolving p i job
    | .translate =>
      let (admission, batch, world) :=
        p.batching.batch.register p.batching.settings (address p job) p.resolution.world
      let p := withWorld { p with batching := { p.batching with batch } } world
      match admission with
      | .deferred => setJob p i (.settled (.ok []))
      | .joined _ => beginResolving p i job
  | .resolving inlining =>
    match p.resolution.inliningOutcome? inlining with
    | none => p
    | some outcome =>
      match job.mode, outcome with
      | .inline, _ => setJob p i (.settled outcome)
      | .translate, .ok source => setJob p i (.settling p.batching.settings.settleTicks source)
      | .translate, .error fault => beginLeaving p i job (.failure fault)
  | .settling (pauses + 1) source => setJob p i (.settling pauses source)
  | .settling 0 source => beginLeaving p i job (.source source)
  | .leaving departure =>
    match departure.result? with
    | some text => setJob p i (.settled (answerOf departure text))
    | none =>
      let (departure, batching, world) := departure.step p.batching p.resolution.world
      setJob (withWorld { p with batching } world) i (.leaving departure)
  | .settled _ => p

/-- One step of a task. -/
def step (task : Task) (p : Pipeline) : Pipeline :=
  match task with
  | .job i =>
    match p.jobs[i]? with
    | some job => stepJob p i job
    | none => p
  | .resolution t => { p with resolution := Resolution.step t p.resolution }

def machine : Machine Pipeline Task :=
  ⟨standing, step⟩

/-- Adds a load and a job for it that begins after `delay` pauses. -/
def submit (mode : Mode) (load : Load) (delay : Nat) (p : Pipeline) : Pipeline :=
  { p with
    resolution := p.resolution.addLoad load
    jobs := p.jobs ++ [⟨p.resolution.loads.length, mode, .delayed delay⟩] }

/-- Bound on the nesting of polls. -/
def depth : Nat := 1000000

/-- Submits loads together and polls their jobs in turn until nothing moves. The numbers
of the jobs are those from the count of jobs before on. -/
def runLoads (mode : Mode) (loads : List (Load × Nat)) (p : Pipeline) : Pipeline :=
  let first := p.jobs.length
  let p := loads.foldl (fun p (load, delay) => submit mode load delay p) p
  let jobs := (List.range loads.length).map fun i => Task.job (first + i)
  machine.settle depth (.resolution .disk :: jobs) depth p

end Pipeline

end StyleBatch
