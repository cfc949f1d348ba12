import StyleBatch.Disk
import StyleBatch.Variables

/-!
# Programs

Programs that can be started by name, as functions from arguments, variables, input and
disk to output and disk. What a program has not read of its input is left for the next one.
-/

namespace StyleBatch

/-- A process that is about to run. -/
structure Process where
  /-- What its program was called by. -/
  name : Text
  arguments : List Text
  bindings : Variables := []
  input : Bytes
  disk : Disk

/-- How a process ended. -/
inductive Exit where
  | code (n : Nat)
  | signal (n : Nat)
deriving DecidableEq, Repr

/-- How a shell counts an exit. -/
def Exit.status : Exit → Nat
  | .code n => n
  | .signal n => 128 + n

/-- The code of an exit; a signal has none. -/
def Exit.code? : Exit → Option Nat
  | .code n => some n
  | .signal _ => none

structure Finished where
  exit : Exit
  output : Bytes
  errors : Bytes
  /-- The input that was not read. -/
  unread : Bytes
  disk : Disk

abbrev Program := Process → Finished

namespace Process

/-- Ends without having read any input. -/
def exitWith (p : Process) (code : Nat) : Finished :=
  ⟨.code code, [], [], p.input, p.disk⟩

/-- Ends well with output, without having read any input. -/
def print (p : Process) (output : Bytes) : Finished :=
  { p.exitWith 0 with output }

/-- Ends with a complaint under the name of the program. -/
def complain (p : Process) (code : Nat) (message : Text) : Finished :=
  { p.exitWith code with errors := Utf8.encode (p.name ++ ": " ++ message ++ ['\n']) }

/-- Ends with a complaint about the arguments and a hint. -/
def misuse (p : Process) (code : Nat) (message : Text) : Finished :=
  p.complain code (message ++ "\nTry '" ++ p.name ++ " --help' for more information.")

end Process

namespace Program

/-- The number that digits write. -/
def number? (t : Text) : Option Nat :=
  if t.isEmpty || !t.all Char.isDigit then none
  else some (t.foldl (fun n c => n * 10 + (c.toNat - '0'.toNat)) 0)

/-- The number that an argument writes, with its sign. -/
def signed? : Text → Option Int
  | '-' :: rest => (number? rest).map fun n => -(n : Int)
  | '+' :: rest => (number? rest).map fun n => (n : Int)
  | t => (number? t).map fun n => (n : Int)

/-- Bytes of a text of ASCII characters. -/
def ascii (t : Text) : Bytes :=
  t.map fun c => UInt8.ofNat c.toNat

/-- Bytes as characters of the same numbers. -/
def bytesAsText (bytes : Bytes) : Text :=
  bytes.map fun b => Char.ofNat b.toNat

/-- A number with blanks in front up to a width. -/
def padded (width n : Nat) : Text :=
  let digits := Text.ofNat n
  List.replicate (width - digits.length) ' ' ++ digits

/-- Marks that let a name be quoted. -/
def needsQuotes (name : Text) : Bool :=
  let marks : Text := " !\"$&()*;<=>[^`|?\\\n\t'"
  name.isEmpty || name.any marks.contains || name.head? == some '#' || name.head? == some '~'

/-- A name in quotes. -/
def quoteName (name : Text) : Text :=
  if name.contains '\x27' then
    if name.any fun c => ("\"$`\\!" : Text).contains c then
      ['\x27'] ++ name.flatMap (fun c => if c == '\x27' then "'\\''" else [c]) ++ ['\x27']
    else ['"'] ++ name ++ ['"']
  else ['\x27'] ++ name ++ ['\x27']

/-- A name, in quotes if it has to be. -/
def quoteNameIfNeeded (name : Text) : Text :=
  if needsQuotes name then quoteName name else name

end Program

end StyleBatch
