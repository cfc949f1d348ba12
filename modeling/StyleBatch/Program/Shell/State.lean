import StyleBatch.Program
import StyleBatch.Program.Script

/-!
# The state of a running script

What commands write is kept in the order of writing, each piece with the stream that it goes
to in the end, so that streams can be joined without losing that order.
-/

namespace StyleBatch.Shell

open Script

/-- Why the commands that follow are not run. -/
inductive Ending where
  | exit
  | signal (n : Nat)
  /-- So many loops are left. -/
  | leaveLoops (n : Nat)
  /-- The next round of the loop that lies so far outside begins. -/
  | nextRound (n : Nat)
  | leaveFunction
deriving DecidableEq, Repr

/-- Bytes written to a stream. -/
structure Written where
  stream : Nat
  bytes : Bytes

/-- Where a stream goes. Streams 1 and 2 are those of the whole script; others are caught by a
part of it. -/
inductive Sink where
  | stream (n : Nat)
  | nowhere
  | file (path : Text)
deriving DecidableEq, Repr

structure State where
  name : Text
  arguments : List Text
  bindings : Variables
  /-- The variables that programs are given. -/
  exported : List Text
  readOnly : List Text := []
  functions : Table Text Command := []
  /-- The options that are on. -/
  flags : Text := []
  traps : Table Text Text := []
  /-- Values that variables had before the functions that run now made them local. -/
  locals : List (Table Text (Option Text)) := []
  status : Nat := 0
  /-- The status of the last command whose output was taken. -/
  caught : Option Nat := none
  /-- How many loops run within each other. -/
  loops : Nat := 0
  ending : Option Ending := none
  /-- Where the script is. -/
  line : Nat := 1
  /-- What runs the commands besides the script itself, as complaints name it. -/
  within : Text := []
  input : Bytes
  /-- Inputs besides the first one. -/
  inputs : Table Nat Bytes := []
  sinks : Table Nat Sink := [(1, .stream 1), (2, .stream 2)]
  /-- The next stream that is caught. -/
  nextStream : Nat := 3
  /-- What was written, the last first. -/
  written : List Written := []
  /-- The signal that ended the last program, until it has been told. -/
  died : Option Nat := none
  disk : Disk

/-- What finds a program by its name. -/
abbrev Finder := Variables → Disk → Text → Except DiskFault Program

/-- Where a script says something about itself. -/
def State.errorName (s : State) : Text :=
  s.name ++ ": " ++ Text.ofNat s.line

namespace State

/-- The variables that programs are given. -/
def environment (s : State) : Variables :=
  s.bindings.filter fun binding => s.exported.contains binding.1

def value? (s : State) (name : Text) : Option Text :=
  Table.get? s.bindings name

def set (name value : Text) (s : State) : State :=
  { s with bindings := Table.set s.bindings name value }

def unset (name : Text) (s : State) : State :=
  { s with
    bindings := s.bindings.filter fun binding => binding.1 != name
    exported := s.exported.filter (· != name) }

def exporting (name : Text) (s : State) : State :=
  if s.exported.contains name then s else { s with exported := s.exported ++ [name] }

def withStatus (status : Nat) (s : State) : State :=
  { s with status }

def sink (s : State) (stream : Nat) : Sink :=
  (Table.get? s.sinks stream).getD .nowhere

end State

/-- Appends to a file what is written to it. -/
def appendTo (path : Text) (bytes : Bytes) (disk : Disk) : Disk :=
  let before := match disk.read path with
    | .ok bytes => bytes
    | .error _ => []
  match disk.write path (before ++ bytes) with
  | .ok disk => disk
  | .error _ => disk

namespace State

/-- Writes to a stream. -/
def emit (stream : Nat) (bytes : Bytes) (s : State) : State :=
  if bytes.isEmpty then s
  else match s.sink stream with
    | .stream n => { s with written := ⟨n, bytes⟩ :: s.written }
    | .nowhere => s
    | .file path => { s with disk := appendTo path bytes s.disk }

/-- What was written to a stream. -/
def streamOf (stream : Nat) (s : State) : Bytes :=
  (s.written.reverse.filter fun w => w.stream == stream).flatMap Written.bytes

/-- Reports trouble in the line where the script is. -/
def report (message : Text) (s : State) : State :=
  s.emit 2 (Utf8.encode (s.errorName ++ ": " ++ s.within ++ message ++ ['\n']))

/-- Reports trouble that ends the script. -/
def fail (message : Text) (s : State) : State :=
  { s.report message with status := 2, ending := some .exit }

/-- Reports trouble with a command and goes on. -/
def refuse (status : Nat) (message : Text) (s : State) : State :=
  (s.report message).withStatus status

/-- Runs commands on behalf of something that complaints name. -/
def onBehalfOf (name : Text) (run : State → State) (s : State) : State :=
  { run { s with within := name } with within := s.within }

/-- Sets a variable that may be set. -/
def assign (name value : Text) (s : State) : State :=
  if s.readOnly.contains name then s.fail (name ++ ": is read only")
  else if s.flags.contains 'a' then (s.set name value).exporting name
  else s.set name value

/-- Runs a program as part of a script. -/
def runProgram (program : Program) (name : Text) (arguments : List Text) (s : State) : State :=
  let finished := program
    { name, arguments, bindings := s.environment, input := s.input, disk := s.disk }
  let s := { s with
    input := finished.unread
    disk := { finished.disk with workingDirectory := s.disk.workingDirectory }
    status := finished.exit.status
    died := match finished.exit with
      | .signal n => some n
      | .code _ => s.died }
  (s.emit 1 finished.output).emit 2 finished.errors

/-- Runs a command in a copy of the script, of which only streams, files and status stay. -/
def apart (run : State → State) (s : State) : State :=
  let inner := run s
  let ending := match inner.ending with
    | some (.signal n) => some (.signal n)
    | _ => none
  { s with
    status := inner.status % 256
    ending
    input := inner.input
    inputs := inner.inputs
    died := inner.died
    nextStream := inner.nextStream
    written := inner.written
    disk := { inner.disk with workingDirectory := s.disk.workingDirectory } }

/-- Runs a command and catches what it writes as output. -/
def capture (run : State → State) (s : State) : State × Bytes :=
  let stream := s.nextStream
  let inner := run { s with
    nextStream := stream + 1, written := [], sinks := Table.set s.sinks 1 (.stream stream) }
  let others := inner.written.filter fun w => w.stream != stream
  ({ inner with
      written := others ++ s.written, sinks := s.sinks, status := s.status
      caught := some inner.status },
    inner.streamOf stream)

end State

end StyleBatch.Shell
