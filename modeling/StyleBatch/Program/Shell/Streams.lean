import StyleBatch.Program.Reading
import StyleBatch.Program.Shell.Expansion

/-!
# Redirections

Where the streams of a command go to or come from. Files that are written to are created
before the command runs.
-/

namespace StyleBatch.Shell

open Script

/-- What a name among the devices stands for. -/
def deviceStream? (path : Text) : Option Nat :=
  if path = "/dev/stdout" ∨ path = "/dev/fd/1" then some 1
  else if path = "/dev/stderr" ∨ path = "/dev/fd/2" then some 2
  else none

/-- The trouble with a file that cannot be created. -/
def creationTrouble (path : Text) (fault : DiskFault) : Text :=
  let reason := if fault = .notFound then ("Directory nonexistent" : Text) else fault.reason
  "cannot create " ++ path ++ ": " ++ reason

/-- The trouble with a file that cannot be opened. -/
def openingTrouble (path : Text) (fault : DiskFault) : Text :=
  let reason := if fault = .notFound then ("No such file" : Text) else fault.reason
  "cannot open " ++ path ++ ": " ++ reason

/-- Inputs and outputs as redirections leave them. -/
structure Streams where
  input : Bytes
  /-- The stream that the input was taken from, if it is shared with it. -/
  source : Option Nat := none
  /-- Whether the input is that of the command itself. -/
  own : Bool := false
  inputs : Table Nat Bytes
  sinks : Table Nat Sink
  /-- Whether files that are there are not to be overwritten. -/
  guarded : Bool := false
  disk : Disk

def Streams.takeInput (stream : Nat) (bytes : Bytes) (t : Streams) : Streams :=
  if stream = 0 then { t with input := bytes, own := true, source := none }
  else { t with inputs := Table.set t.inputs stream bytes }

def Streams.setSink (stream : Nat) (sink : Sink) (t : Streams) : Streams :=
  { t with sinks := Table.set t.sinks stream sink }

/-- A file to write to; what it holds is kept when it is appended to. -/
def openForWriting (keep : Bool) (path : Text) (disk : Disk) : Except Text (Sink × Disk) :=
  let kept := match keep, disk.read path with
    | true, .ok bytes => bytes
    | _, _ => []
  match disk.place path, disk.write path kept with
  | .ok place, .ok disk => .ok (.file ('/' :: Text.joinWith "/" place.segments), disk)
  | _, .error fault => .error (creationTrouble path fault)
  | .error fault, _ => .error (creationTrouble path fault)

/-- One redirection, given its target. -/
def redirect (stream : Nat) (direction : Direction) (target : Text) (t : Streams) :
    Except Text Streams :=
  let sinkOf := fun (n : Nat) => (Table.get? t.sinks n)
  match direction with
  | .here => .ok (t.takeInput stream (Utf8.encode target))
  | .join =>
    if target = "-" then
      .ok (if stream = 0 then t.takeInput 0 [] else t.setSink stream .nowhere)
    else match Program.number? target with
    | none => .error "Syntax error: Bad fd number"
    | some n =>
      if stream = 0 then
        if n = 0 then .ok t
        else match Table.get? t.inputs n with
          | some bytes => .ok { t with input := bytes, own := true, source := some n }
          | none => .error (target ++ ": Bad file descriptor")
      else if n = 0 then .ok (if stream > 2 then t.takeInput stream t.input else t)
      else match sinkOf n, Table.get? t.inputs n with
        | some sink, _ => .ok (t.setSink stream sink)
        | none, some bytes => .ok (t.takeInput stream bytes)
        | none, none => .error (target ++ ": Bad file descriptor")
  | .read =>
    if Program.isInput target then .ok t
    else match (Program.device? 0 target).map Except.ok |>.getD (t.disk.read target) with
      | .ok bytes => .ok (t.takeInput stream bytes)
      | .error fault =>
        if fault = .isDirectory then .ok (t.takeInput stream [])
        else .error (openingTrouble target fault)
  | .readWrite =>
    match t.disk.read target with
    | .ok bytes => .ok (t.takeInput stream bytes)
    | .error _ =>
      match openForWriting true target t.disk with
      | .ok (_, disk) => .ok { t.takeInput stream [] with disk }
      | .error message => .error message
  | direction =>
    match deviceStream? target with
    | some n => .ok (t.setSink stream ((sinkOf n).getD .nowhere))
    | none =>
      if target = "/dev/null" then .ok (t.setSink stream .nowhere)
      else if t.guarded && direction == .write && t.disk.isFile target then
        .error (creationTrouble target .exists)
      else
        match openForWriting (direction = .append) target t.disk with
        | .ok (sink, disk) => .ok { t.setSink stream sink with disk }
        | .error message => .error message

/-- The streams of a script. -/
def State.streams (s : State) : Streams :=
  { input := s.input, inputs := s.inputs, sinks := s.sinks, disk := s.disk
    guarded := s.flags.contains 'C' }

/-- Follows redirections one after the other, as far as there is no trouble; the targets are
expanded before. -/
def follow (rs : List (Nat × Direction × Text)) (t : Streams) : Except Text Streams :=
  rs.foldlM (fun t (stream, direction, target) => redirect stream direction target t) t

/-- The targets of redirections, expanded. -/
def targets (capture : Capture) (s : State) (rs : List Redirection) :
    State × List (Nat × Direction × Text) :=
  rs.foldl (fun (s, done) r =>
    if s.ending.isSome then (s, done)
    else
      let (s, target) := expandText capture s r.target
      (s, done ++ [(r.stream, r.direction, target)])) (s, [])

/-- Whether the trouble ends the whole script. -/
def isFatal (message : Text) : Bool :=
  ("Syntax error" : Text).isPrefixOf message

/-- Runs something with redirected streams; `fatal` says that trouble ends the script. -/
def redirected (fatal : Bool) (rs : List (Nat × Direction × Text)) (run : State → State)
    (s : State) : State :=
  match follow rs s.streams with
  | .error message =>
    if fatal || isFatal message then s.fail message else s.refuse 2 message
  | .ok t =>
    let inner := run { s with
      disk := t.disk, sinks := t.sinks, inputs := t.inputs, input := t.input }
    let input := if t.own then s.input else inner.input
    let inputs := match t.source with
      | some n => Table.set inner.inputs n inner.input
      | none => inner.inputs
    let own := (rs.map fun r => r.1).filter fun n => !Table.has s.inputs n
    { inner with
      sinks := s.sinks, input, inputs := inputs.filter fun entry => !own.contains entry.1 }

/-- Redirects the streams for all that follows. -/
def redirectRest (rs : List (Nat × Direction × Text)) (s : State) : State :=
  match follow rs s.streams with
  | .error message => s.fail message
  | .ok t =>
    { s with disk := t.disk, sinks := t.sinks, inputs := t.inputs, input := t.input, status := 0 }

end StyleBatch.Shell
