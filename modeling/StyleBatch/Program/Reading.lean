import StyleBatch.Program.Options

/-!
# Reading files

Programs read the files that their operands name, or their input where there is no operand
or the name is `-`. A file that cannot be read is reported and passed over, and the exit
code tells of it.
-/

namespace StyleBatch.Program

/-- What was read from one name. -/
structure Reading where
  name : Text
  content : Except DiskFault Bytes

/-- What a device holds, if a program reads no more than `bound` bytes of it. -/
def device? (bound : Nat) (name : Text) : Option Bytes :=
  if name = "/dev/null" then some []
  else if name = "/dev/zero" then some (List.replicate bound 0)
  else none

/-- Names that stand for the input. -/
def isInput (name : Text) : Bool :=
  name == ['-'] || name == ("/dev/stdin" : Text) || name == ("/dev/fd/0" : Text) ||
    name == ("/proc/self/fd/0" : Text)

/-- Reads names one after the other; the input is there for the first name of it only. -/
def readNames (disk : Disk) (bound : Nat) : List Text → Bytes → List Reading × Bytes
  | [], input => ([], input)
  | name :: names, input =>
    if isInput name then
      let (readings, unread) := readNames disk bound names []
      (⟨name, .ok input⟩ :: readings, unread)
    else
      let (readings, unread) := readNames disk bound names input
      let content := match device? bound name with
        | some bytes => .ok bytes
        | none => disk.read name
      (⟨name, content⟩ :: readings, unread)

namespace Reading

def failed (r : Reading) : Bool :=
  match r.content with
  | .ok _ => false
  | .error _ => true

def bytes (r : Reading) : Bytes :=
  match r.content with
  | .ok bytes => bytes
  | .error _ => []

end Reading

/-- What a program says about a name that it cannot read. -/
abbrev Complaint := Text → DiskFault → Text

def plainComplaint : Complaint := fun name fault =>
  quoteNameIfNeeded name ++ ": " ++ fault.reason

/-- Tells files that cannot be opened from those that cannot be read. -/
def openComplaint (opening reading : Text → Text) : Complaint := fun name fault =>
  (if fault = .isDirectory then reading name else opening name) ++ ": " ++ fault.reason

/-- The complaints about what could not be read. -/
def complaints (program : Text) (complaint : Complaint) (readings : List Reading) : Bytes :=
  readings.flatMap fun r =>
    match r.content with
    | .ok _ => []
    | .error fault => Utf8.encode (program ++ ": " ++ complaint r.name fault ++ ['\n'])

/-- Turns what names hold into output; `bound` is how much is read of a device at most, and
`code` the exit code if something cannot be read. -/
def readingAtMost (bound code : Nat) (complaint : Complaint) (names : List Text)
    (show? : List Reading → Bytes) : Program := fun p =>
  let names := if names.isEmpty then [("-" : Text)] else names
  let (readings, unread) := readNames p.disk bound names p.input
  ⟨.code (if readings.any Reading.failed then code else 0), show? readings,
    complaints p.name complaint readings, unread, p.disk⟩

/-- Turns what names hold into output. -/
def reading (complaint : Complaint) (names : List Text) (show? : List Reading → Bytes) : Program :=
  readingAtMost 0 1 complaint names show?

/-- Turns the bytes that names hold, all in one, into output. -/
def filtering (names : List Text) (change : Bytes → Bytes) : Program :=
  reading plainComplaint names fun readings => change (readings.flatMap Reading.bytes)

end StyleBatch.Program
