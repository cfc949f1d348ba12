import StyleBatch.Compiler
import StyleBatch.Config
import StyleBatch.Schedule
import StyleBatch.World

/-!
# Compiling a batch

An invocation sends a source to the compiler and sorts the answer. Faults and failures
are logged and leave no text. Where the environment persists, the text also goes to the
artifact; a write that fails is logged and the text is returned all the same. Writing takes
two steps: the artifact's file is opened, which empties it, and the text is written into it.
-/

namespace StyleBatch

/-- The compiler and what its text is used for. -/
structure Workshop where
  compiler : Compiler
  environment : Environment
  artifact : ArtifactSettings

inductive InvocationPhase where
  | queued
  | compiling (call : Call)
  /-- The artifact's directory has been asked for, with this result. -/
  | makingDirectory (pauses : Nat) (text : Text) (made : Except DiskFault Unit)
  /-- The artifact's file has been asked for. -/
  | opening (text : Text)
  /-- The artifact's file is open and has been emptied. -/
  | filling (text : Text) (file : List Text)
  /-- The artifact has been written, with this result. -/
  | writing (pauses : Nat) (text : Text) (written : Except DiskFault Unit)
  | settled (text : Option Text)
deriving DecidableEq, Repr

/-- Compiles `source` for the load at `address`. -/
structure Invocation where
  source : Text
  address : Text
  phase : InvocationPhase := .queued
deriving DecidableEq, Repr

namespace Invocation

/-- An invocation waits for no task. -/
def standing {α : Type} (i : Invocation) : Standing α :=
  let resting : Nat → Standing α
    | 0 => .ready
    | _ + 1 => .asleep
  match i.phase with
  | .queued => .ready
  | .compiling call => resting call.pauses
  | .makingDirectory pauses .. => resting pauses
  | .opening _ => .ready
  | .filling .. => .asleep
  | .writing pauses .. => resting pauses
  | .settled _ => .settled

/-- The compiled text once it is there, `none` in it for a failed compile. -/
def result? (i : Invocation) : Option (Option Text) :=
  match i.phase with
  | .settled text => some text
  | _ => none

/-- Result of a change to the disk, and the disk afterwards. -/
def attempt (disk : Disk) : Except DiskFault Disk → Except DiskFault Unit × Disk
  | .ok disk => (.ok (), disk)
  | .error fault => (.error fault, disk)

/-- Asks for the artifact's file. -/
def beginWriting (i : Invocation) (w : Workshop) (world : World) (text : Text) :
    Invocation × Workshop × World :=
  ({ i with phase := .opening text }, w, world)

/-- Opens the artifact's file, which empties it. -/
def openArtifact (i : Invocation) (w : Workshop) (world : World) (text : Text) :
    Invocation × Workshop × World :=
  match world.disk.create w.artifact.path with
  | .ok (file, disk) => ({ i with phase := .filling text file }, w, { world with disk })
  | .error fault => ({ i with phase := .writing 1 text (.error fault) }, w, world)

/-- Writes the text into the artifact's file. -/
def fillArtifact (i : Invocation) (w : Workshop) (world : World) (text : Text)
    (file : List Text) : Invocation × Workshop × World :=
  ({ i with phase := .writing 0 text (.ok ()) }, w,
    { world with disk := world.disk.overwrite file (Utf8.encode text) })

/-- Makes the artifact's directory, if the artifact lies in one. -/
def beginPersisting (i : Invocation) (w : Workshop) (world : World) (text : Text) :
    Invocation × Workshop × World :=
  match Path.parent? w.artifact.path with
  | none | some [] => beginWriting i w world text
  | some parent =>
    let (made, disk) := attempt world.disk (world.disk.makePath parent)
    ({ i with phase := .makingDirectory 1 text made }, w, { world with disk })

/-- Gives up on the artifact and keeps the text. -/
def abandonArtifact (i : Invocation) (w : Workshop) (world : World) (text : Text)
    (fault : DiskFault) : Invocation × Workshop × World :=
  let path := w.artifact.path
  let message := (Fault.artifactNotWritten path fault.message).message
  ({ i with phase := .settled (some text) }, w, world.emit (.artifactNotWritten path message))

/-- One step of an invocation. -/
def step (i : Invocation) (w : Workshop) (world : World) : Invocation × Workshop × World :=
  match i.phase with
  | .queued =>
    let (compiler, call, disk) := w.compiler.call i.source world.disk
    ({ i with phase := .compiling call }, { w with compiler }, { world with disk })
  | .compiling call =>
    match call.pauses with
    | pauses + 1 => ({ i with phase := .compiling { call with pauses } }, w, world)
    | 0 =>
      let report := match w.compiler.answer call with
        | .ok report => report
        | .error fault => .failure 1 fault.message
      if report.isFailure then
        ({ i with phase := .settled none }, w,
          world.emit (.compileFailed i.address report.status report.message i.source))
      else
        let world := world.emit (.compileSucceeded i.address (Text.byteSize report.text) 0)
        if w.environment.persists then beginPersisting i w world report.text
        else ({ i with phase := .settled (some report.text) }, w, world)
  | .makingDirectory (pauses + 1) text made =>
    ({ i with phase := .makingDirectory pauses text made }, w, world)
  | .makingDirectory 0 text made =>
    match made with
    | .ok () => beginWriting i w world text
    | .error fault => abandonArtifact i w world text fault
  | .opening text => openArtifact i w world text
  | .filling text file => fillArtifact i w world text file
  | .writing (pauses + 1) text written =>
    ({ i with phase := .writing pauses text written }, w, world)
  | .writing 0 text written =>
    match written with
    | .ok () =>
      ({ i with phase := .settled (some text) }, w,
        world.emit (.artifactWritten w.artifact.path (Text.byteSize text)))
    | .error fault => abandonArtifact i w world text fault
  | .settled _ => (i, w, world)

/-- An invocation by itself, as the only task. -/
def machine : Machine (Invocation × Workshop × World) Unit :=
  ⟨fun (i, _, _) _ => i.standing, fun _ (i, w, world) => step i w world⟩

end Invocation

end StyleBatch
