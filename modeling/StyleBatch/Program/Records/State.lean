import StyleBatch.Program.Reading
import StyleBatch.Program.Records.Value
import StyleBatch.Program.Shell

/-!
# The state of a script over records

Variables and arrays, the current record with its fields, what is left of the inputs, and
what was written. Output waits until it is flushed, so that commands that write for
themselves come in front of it.
-/

namespace StyleBatch.Records

/-- A variable of a function. As an array it stands for the one under a key. -/
structure Slot where
  value : Value
  array : Text

structure State where
  script : Script
  /-- The shell that runs commands. -/
  shell : Program
  name : Text
  bindings : Variables
  disk : Disk
  values : Table Text Value := []
  arrays : Table Text (Table Text Value) := []
  /-- The variables of the function that runs. -/
  frame : Table Text Slot := []
  /-- The number of the next array of a function. -/
  nextArray : Nat := 0
  record : Value := .missing
  fields : List Value := []
  /-- The standard input, until it is opened. -/
  input : Bytes
  /-- What is left of the input that is read now. -/
  current : Option Text := none
  nextOperand : Nat := 1
  /-- Whether any input was opened. -/
  opened : Bool := false
  /-- What is left of other inputs, by their names. -/
  inputs : Table Text Text := []
  /-- What was written to files and not flushed, the last first. -/
  files : Table Text (List Bytes) := []
  /-- What was written for commands, the last first. -/
  commands : Table Text (List Bytes) := []
  /-- Output that waits, the last first. -/
  waiting : List Bytes := []
  /-- Output and complaints that are out, the last first. -/
  output : List Bytes := []
  errors : List Bytes := []
  /-- The rules of ranges that are open. -/
  ranges : List Nat := []
  status : Nat := 0

/-- Why a statement is left. -/
inductive Leave where
  | loop
  | round
  | record
  | exit
  | function (v : Value)
  | fatal (message : Text)

abbrev Run := ExceptT Leave (StateM State)

/-- A text of bytes as it stands for a name. -/
def nameOf (t : Text) : Text :=
  Utf8.decodeLossy (Program.ascii t)

def textOfName (name : Text) : Text :=
  Program.bytesAsText (Utf8.encode name)

namespace Run

def fail {α : Type} (message : Text) : Run α :=
  throw (.fatal message)

/-! ## Variables -/

/-- The value of a variable; the number of fields is one of them. -/
def lookup (name : Text) : Run Value := do
  let s ← get
  match Table.get? s.frame name with
  | some slot => return slot.value
  | none =>
    if name = "NF" then return .ofNat s.fields.length
    else return (Table.get? s.values name).getD .missing

def textOf (name : Text) : Run Text := do
  return (← lookup name).toText "%.6g"

def numberFormat : Run Text :=
  textOf "CONVFMT"

/-- A failure while the script runs. -/
def failAtRecord {α : Type} (message : Text) : Run α := do
  let place := "\n\tFILENAME=\"" ++ (← textOf "FILENAME") ++ "\" FNR=" ++ (← textOf "FNR") ++
    " NR=" ++ (← textOf "NR")
  fail (("run time error: " : Text) ++ message ++ place)

/-- The pieces of a record. -/
def split (separator t : Text) : Run (List Text) := do
  match Separator.read separator with
  | .error message => failAtRecord message
  | .ok separator => return separator.pieces (← textOf "RS").isEmpty t

def setRecord (t : Text) : Run Unit := do
  let pieces ← split (← textOf "FS") t
  modify fun s => { s with record := .input t, fields := pieces.map .input }

/-- Puts fields in place of the current ones, and makes the record of them. -/
def setFields (fields : List Value) : Run Unit := do
  let format ← numberFormat
  let t := Text.joinWith (← textOf "OFS") (fields.map (Value.toText format))
  modify fun s => { s with fields, record := .input t }

/-- So many fields, of which new ones are empty. -/
def resized (n : Nat) (fields : List Value) : List Value :=
  fields.take n ++ List.replicate (n - fields.length) (.text [])

def field (n : Int) : Run Value := do
  let s ← get
  if n < 0 then failAtRecord ("negative field index $" ++ Text.ofInt n)
  else if n = 0 then return s.record
  else return s.fields.getD (n.toNat - 1) .missing

def setField (n : Int) (v : Value) : Run Unit := do
  let s ← get
  if n < 0 then failAtRecord ("negative field index $" ++ Text.ofInt n)
  else if n = 0 then setRecord (v.toText (← numberFormat))
  else setFields ((resized (max n.toNat s.fields.length) s.fields).set (n.toNat - 1) v)

def setName (name : Text) (v : Value) : Run Unit := do
  let s ← get
  match Table.get? s.frame name with
  | some slot => set { s with frame := Table.set s.frame name { slot with value := v } }
  | none =>
    if name = "NF" then setFields (resized (Decimal.truncated v.toNumber).toNat s.fields)
    else set { s with values := Table.set s.values name v }

/-! ## Arrays -/

/-- The key of the array that a name stands for. -/
def arrayKey (name : Text) : Run Text := do
  return match Table.get? (← get).frame name with
    | some slot => slot.array
    | none => name

def array (name : Text) : Run (Table Text Value) := do
  return (Table.get? (← get).arrays (← arrayKey name)).getD []

def setArray (name : Text) (items : Table Text Value) : Run Unit := do
  let key ← arrayKey name
  modify fun s => { s with arrays := Table.set s.arrays key items }

/-- An item, which is there from now on. -/
def item (name key : Text) : Run Value := do
  let items ← array name
  match Table.get? items key with
  | some v => return v
  | none =>
    setArray name (items ++ [(key, .missing)])
    return .missing

def setItem (name key : Text) (v : Value) : Run Unit := do
  setArray name (Table.set (← array name) key v)

/-- A variable for a function: as a value and as an array of its own. -/
def newSlot (v : Value) : Run Slot := do
  let n := (← get).nextArray
  modify fun s => { s with nextArray := n + 1 }
  return ⟨v, '#' :: Text.ofNat n⟩

/-! ## Output -/

/-- Lets out what waits. -/
def flush : Run Unit :=
  modify fun s =>
    let disk := s.files.foldl (fun disk (name, chunks) =>
      Shell.appendTo name chunks.reverse.flatten disk) s.disk
    { s with
      output := s.waiting ++ s.output, waiting := []
      files := s.files.map fun (name, _) => (name, []), disk }

/-- Runs a command on an input of its own or on the one of the script; the answers are its
status and its output. -/
def command (text : Text) (input? : Option Bytes) : Run (Nat × Bytes) := do
  let s ← get
  let finished := s.shell
    { name := "sh", arguments := ["-c", nameOf text], bindings := s.bindings
      input := input?.getD s.input, disk := s.disk }
  let disk := { finished.disk with workingDirectory := s.disk.workingDirectory }
  let input := if input?.isSome then s.input else finished.unread
  set { s with disk, input, errors := finished.errors :: s.errors }
  return (finished.exit.status, finished.output)

def emit (bytes : Bytes) : Run Unit :=
  modify fun s => { s with waiting := bytes :: s.waiting }

/-- Writes to a file, which is made at first. -/
def emitTo (append : Bool) (name : Text) (bytes : Bytes) : Run Unit := do
  let s ← get
  let path := nameOf name
  if path = "/dev/stdout" ∨ path = "-" then emit bytes
  else if path = "/dev/stderr" then set { s with errors := bytes :: s.errors }
  else match Table.get? s.files path with
    | some chunks => set { s with files := Table.set s.files path (bytes :: chunks) }
    | none =>
      let kept := match append, s.disk.read path with
        | true, .ok bytes => bytes
        | _, _ => []
      match s.disk.write path kept with
      | .ok disk => set { s with disk, files := Table.set s.files path [bytes] }
      | .error fault =>
        fail ("cannot open \"" ++ name ++ "\" for output (" ++ fault.reason ++ ")")

/-- Writes for a command, which is run when it is closed. -/
def emitFor (text : Text) (bytes : Bytes) : Run Unit := do
  match Table.get? (← get).commands text with
  | some chunks =>
    modify fun s => { s with commands := Table.set s.commands text (bytes :: chunks) }
  | none =>
    flush
    modify fun s => { s with commands := Table.set s.commands text [bytes] }

/-- Runs the command that was written for. -/
def closeCommand (text : Text) (chunks : List Bytes) : Run Nat := do
  modify fun s => { s with commands := s.commands.filter fun c => c.1 != text }
  let (status, bytes) ← command text (some chunks.reverse.flatten)
  modify fun s => { s with output := bytes :: s.output }
  return status

/-- Closes what has a name; the answer is its status, if there is anything. -/
def close (name : Text) : Run (Option Nat) := do
  let s ← get
  match Table.get? s.commands name with
  | some chunks => return some (← closeCommand name chunks)
  | none =>
    let chunks? := Table.get? s.files (nameOf name)
    let disk := match chunks? with
      | some chunks => Shell.appendTo (nameOf name) chunks.reverse.flatten s.disk
      | none => s.disk
    set { s with
      disk
      files := s.files.filter fun f => f.1 != nameOf name
      inputs := s.inputs.filter fun i => i.1 != name }
    return if chunks?.isSome || Table.has s.inputs name then some 0 else none

/-- Runs the commands that are open and lets out what waits. -/
def closeAll : Run Unit := do
  for (text, chunks) in (← get).commands do
    let _ ← closeCommand text chunks
  flush

/-! ## Input -/

/-- The first record of a text and what follows it. -/
def cutRecord (separator t : Text) : Except Text (Option (Text × Text)) :=
  match separator, t with
  | _, [] => .ok none
  | [], t =>
    let t := t.dropWhile (· == '\n')
    if t.isEmpty then .ok none
    else match Text.cut? "\n\n" t with
      | some (record, rest) => .ok (some (record, rest))
      | none => .ok (some (Text.dropEnd (· == '\n') t, []))
  | [c], t =>
    let record := t.takeWhile (· != c)
    .ok (some (record, t.drop (record.length + 1)))
  | separator, t => do
    let r ← readRegex separator
    match r.find? {} (Regex.Spot.first t) with
    | some (start, stop) =>
      if stop.position = start.position then return some (t, [])
      else return some (t.take start.position, stop.rest)
    | none => return some (t, [])

/-- Cuts a record of the text. -/
def cut (t : Text) : Run (Option (Text × Text)) := do
  match cutRecord (← textOf "RS") t with
  | .ok found => return found
  | .error message => failAtRecord message

/-- Gives a variable the value behind the sign of an operand. -/
def assignOperand (operand : Text) : Run Bool := do
  match Text.cutAt? '=' operand with
  | some (name, value) =>
    if Script.isName name then
      setName name (.input (unescaped value))
      return true
    else return false
  | none => return false

def openStandard : Run Unit :=
  modify fun s => { s with
    current := some (Program.bytesAsText s.input), input := [], opened := true }

/-- Opens the next input that operands name; the answer tells whether there is one. -/
def openNext : Nat → Run Bool
  | 0 => return false
  | fuel + 1 => do
    let s ← get
    let count := (Decimal.truncated (← lookup "ARGC").toNumber).toNat
    if s.nextOperand < count then
      let operand := ((Table.get? ((Table.get? s.arrays "ARGV").getD [])
        (Text.ofNat s.nextOperand)).getD .missing).toText "%.6g"
      set { s with nextOperand := s.nextOperand + 1 }
      if operand.isEmpty then openNext fuel
      else if ← assignOperand operand then openNext fuel
      else
        setName "FNR" (.number 0)
        setName "FILENAME" (.input operand)
        if Program.isInput operand then
          openStandard
          return true
        else match s.disk.read (nameOf operand) with
          | .ok bytes =>
            modify fun s => { s with current := some (Program.bytesAsText bytes), opened := true }
            return true
          | .error .isDirectory => fail "read error (Is a directory)"
          | .error fault => fail ("cannot open \"" ++ operand ++ "\" (" ++ fault.reason ++ ")")
    else if s.opened then return false
    else
      setName "FILENAME" (.input ['-'])
      openStandard
      return true

/-- The next record of the inputs that operands name. -/
def nextRecord : Nat → Run (Option Text)
  | 0 => return none
  | fuel + 1 => do
    match (← get).current with
    | some t =>
      match ← cut t with
      | some (record, rest) =>
        modify fun s => { s with current := some rest }
        for name in ([("NR" : Text), "FNR"] : List Text) do
          setName name (.number ((← lookup name).toNumber + 1))
        return some record
      | none =>
        modify fun s => { s with current := none }
        nextRecord fuel
    | none => if ← openNext 10000 then nextRecord fuel else return none

/-- The next record of another input, which is opened at first; nothing if that cannot be. -/
def recordFrom (name : Text) (start : Run (Option Text)) : Run (Option (Option Text)) := do
  let found ← match Table.get? (← get).inputs name with
    | some t => pure (some t)
    | none => start
  match found with
  | none => return none
  | some t =>
    match ← cut t with
    | some (record, rest) =>
      modify fun s => { s with inputs := Table.set s.inputs name rest }
      return some (some record)
    | none =>
      modify fun s => { s with inputs := Table.set s.inputs name [] }
      return some none

end Run

end StyleBatch.Records
