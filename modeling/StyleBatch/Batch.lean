import StyleBatch.Digest
import StyleBatch.Invocation

/-!
# Batches

Loads that overlap in time form a batch. Admission joins the open batch, or opens the
next epoch when nobody is in; leaving hands in a text or nothing; the last one to leave
closes the batch and compiles all that was handed in.
-/

namespace StyleBatch

/-- Counts of the open batch and the text handed in so far. -/
structure Batch where
  epoch : Nat := 0
  /-- Members that have not left. -/
  outstanding : Nat := 0
  /-- Members that joined this epoch. -/
  members : Nat := 0
  buffer : Text := []
  hasCompiled : Bool := false
  /-- Whether a first load has been deferred. -/
  bootstrapped : Bool := false
deriving DecidableEq, Repr

inductive Admission where
  /-- Answered empty, never resolved. -/
  | deferred
  | joined (epoch : Nat)
deriving DecidableEq, Repr

/-- What the last member takes along. -/
structure ClosedBatch where
  epoch : Nat
  members : Nat
  source : Text
deriving DecidableEq, Repr

namespace Batch

/-- Admits a load. -/
def register (settings : BatchSettings) (address : Text) (b : Batch) (world : World) :
    Admission × Batch × World :=
  if settings.deferFirstLoad && !b.bootstrapped && !b.hasCompiled then
    (.deferred, { b with bootstrapped := true }, world.emit (.bootstrapDeferred address))
  else
    let b := if b.outstanding = 0 then { b with epoch := b.epoch + 1, members := 0 } else b
    let b := { b with outstanding := b.outstanding + 1, members := b.members + 1 }
    (.joined b.epoch, b, world.emit (.loadSubmitted address b.epoch b.outstanding))

/-- One member less; the last one takes the buffer. -/
def leave (b : Batch) : Option ClosedBatch × Batch :=
  let b := { b with outstanding := b.outstanding - 1 }
  if b.outstanding > 0 then (none, b)
  else (some ⟨b.epoch, b.members, b.buffer⟩, { b with buffer := [] })

end Batch

/-- A batch with its rules and the workshop that compiles for it. -/
structure Batching where
  settings : BatchSettings
  environment : Environment
  batch : Batch := {}
  workshop : Workshop

/-- What a member brings when it leaves. -/
inductive Contribution where
  | source (text : Text)
  | failure (fault : Fault)
deriving DecidableEq, Repr

inductive DeparturePhase where
  | queued
  | compiling (invocation : Invocation)
  | settled (text : Text)
deriving DecidableEq, Repr

/-- A member on its way out; its result is the compiled batch or the empty text. -/
structure Departure where
  address : Text
  contribution : Contribution
  phase : DeparturePhase := .queued
deriving DecidableEq, Repr

namespace Departure

def standing {α : Type} (d : Departure) : Standing α :=
  match d.phase with
  | .queued => .ready
  | .compiling invocation =>
    match invocation.standing with
    | .settled => .ready
    | standing => standing
  | .settled _ => .settled

/-- The text that the member returns, once it is there. -/
def result? (d : Departure) : Option Text :=
  match d.phase with
  | .settled text => some text
  | _ => none

/-- Hands a closed batch on: outside the authoritative process the first one is not
compiled, since an artifact for it is there already. -/
def close (d : Departure) (closed : ClosedBatch) (b : Batching) (world : World) :
    Departure × Batching × World :=
  let world := world.emit (.batchClosed closed.epoch closed.members d.address
    (Text.byteSize closed.source) (Digest.ofText closed.source))
  let compile : Departure :=
    { d with phase := .compiling { source := closed.source, address := d.address } }
  if b.environment.authoritative then (compile, b, world)
  else
    let first := !b.batch.hasCompiled
    let b := { b with batch := { b.batch with hasCompiled := true } }
    if first then
      ({ d with phase := .settled [] }, b, world.emit (.firstCompileSkipped closed.epoch))
    else (compile, b, world)

/-- A member leaves. Of a batch in which nobody handed in any text, a failed last member
closes nothing. -/
def leave (d : Departure) (b : Batching) (world : World) : Departure × Batching × World :=
  match d.contribution with
  | .source text =>
    let (closed, batch) := { b.batch with buffer := b.batch.buffer ++ text }.leave
    let b := { b with batch }
    match closed with
    | some closed => close d closed b world
    | none => ({ d with phase := .settled [] }, b, world)
  | .failure fault =>
    let (closed, batch) := b.batch.leave
    let b := { b with batch }
    let world := world.emit (.loadFailed d.address fault.message)
    match closed with
    | some closed =>
      if closed.source.isEmpty then ({ d with phase := .settled [] }, b, world)
      else close d closed b world
    | none => ({ d with phase := .settled [] }, b, world)

/-- One step of a departure. In the authoritative process a compile counts as done only
when it succeeds. -/
def step (d : Departure) (b : Batching) (world : World) : Departure × Batching × World :=
  match d.phase with
  | .queued => leave d b world
  | .compiling invocation =>
    match invocation.result? with
    | none =>
      let (invocation, workshop, world) := invocation.step b.workshop world
      ({ d with phase := .compiling invocation }, { b with workshop }, world)
    | some none => ({ d with phase := .settled [] }, b, world)
    | some (some text) =>
      let hasCompiled := b.batch.hasCompiled || b.environment.authoritative
      let batch := { b.batch with hasCompiled }
      ({ d with phase := .settled text }, { b with batch }, world)
  | .settled _ => (d, b, world)

end Departure

/-- Something that a member of a batch does over several polls. -/
inductive Errand where
  | leaving (departure : Departure)
  /-- Waits as long as a member does between its resolution and its leaving. -/
  | settling (pauses : Nat)
  | settled (text : Option Text)
deriving DecidableEq, Repr

/-- A batch and the errands of its members. -/
structure BatchRun where
  batching : Batching
  world : World
  errands : List Errand := []

namespace BatchRun

def standing (r : BatchRun) (i : Nat) : Standing Nat :=
  match r.errands[i]? with
  | some (.leaving departure) =>
    match departure.standing with
    | .settled => .ready
    | standing => standing
  | some (.settling 0) => .ready
  | some (.settling (_ + 1)) => .asleep
  | some (.settled _) => .settled
  | none => .settled

/-- One step of an errand. -/
def step (i : Nat) (r : BatchRun) : BatchRun :=
  match r.errands[i]? with
  | some (.leaving departure) =>
    match departure.result? with
    | some text =>
      let result := match departure.contribution with
        | .source _ => some text
        | .failure _ => none
      { r with errands := r.errands.set i (.settled result) }
    | none =>
      let (departure, batching, world) := departure.step r.batching r.world
      { r with batching, world, errands := r.errands.set i (.leaving departure) }
  | some (.settling (pauses + 1)) => { r with errands := r.errands.set i (.settling pauses) }
  | some (.settling 0) => { r with errands := r.errands.set i (.settled none) }
  | _ => r

def machine : Machine BatchRun Nat :=
  ⟨standing, step⟩

/-- Admits a load. -/
def register (r : BatchRun) (address : Text) : Admission × BatchRun :=
  let (admission, batch, world) := r.batching.batch.register r.batching.settings address r.world
  (admission, { r with batching := { r.batching with batch }, world })

/-- Adds an errand; its number is the count of errands before. -/
def begin (r : BatchRun) (errand : Errand) : BatchRun :=
  { r with errands := r.errands ++ [errand] }

end BatchRun

end StyleBatch
