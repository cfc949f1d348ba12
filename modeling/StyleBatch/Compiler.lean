import StyleBatch.Disk
import StyleBatch.Fault
import StyleBatch.Report

/-!
# Compilers

A compiler takes a source and, some pauses later, answers with a report or a fault. One
kind echoes its source, one answers by a script, one runs a program with the source as
its input. Which programs there are and what they do is a parameter of that kind. Every
compiler keeps the sources of its calls.
-/

namespace StyleBatch

/-- One answer of a scripted compiler; without a text of its own it echoes the source. -/
structure ScriptedReply where
  pauses : Nat
  answer : Except Fault (Int × Text × Option Text)
deriving DecidableEq, Repr

/-- What a program leaves when it has run. -/
structure Ran where
  /-- The exit code; a signal leaves none. -/
  code : Option Nat
  output : Bytes
  errors : Bytes
  disk : Disk

/-- The programs that can be started: what a name stands for on a disk, as a function from
arguments, input and disk, or why nothing can be started by it. -/
abbrev Programs :=
  Disk → Text → Except DiskFault (List Text → Bytes → Disk → Ran)

inductive CompilerKind where
  /-- Puts `before` in front of the source, or fails as `failure` says. -/
  | echo (before : Text) (failure : Option (Int × Text))
  /-- Gives the replies one after the other and echoes the source afterwards. -/
  | scripted (replies : List ScriptedReply)
  /-- Runs one of the programs. -/
  | program (programs : Programs) (name : Text) (arguments : List Text)

structure Compiler where
  kind : CompilerKind
  calls : List Text := []

/-- A call that has been made; without an answer it takes the compiler's at the end. -/
structure Call where
  source : Text
  pauses : Nat
  answer : Option (Except Fault Report)
deriving DecidableEq, Repr

namespace Compiler

/-- Name of the compiler in reports. -/
def name : Compiler → Text
  | ⟨.echo .., _⟩ => "mock"
  | ⟨.scripted _, _⟩ => "script"
  | ⟨.program _ name _, _⟩ => name

/-- Makes an echoing compiler fail, or work again. -/
def setFailure (failure : Option (Int × Text)) : Compiler → Compiler
  | ⟨.echo before _, calls⟩ => ⟨.echo before failure, calls⟩
  | compiler => compiler

/-- Runs a program on a source. A signal counts as exit code 1. -/
def runProgram (programs : Programs) (name : Text) (arguments : List Text) (source : Text)
    (disk : Disk) : Except Fault Report × Disk :=
  if (name :: arguments).any fun t => t.contains '\x00' then
    (.error (.noCompiler name "nul byte found in provided data"), disk)
  else match programs disk name with
  | .error fault => (.error (.noCompiler name fault.message), disk)
  | .ok run =>
    let ran := run arguments (Utf8.encode source) disk
    (.ok ⟨(ran.code.getD 1 : Nat), Utf8.decodeLossy ran.errors, Utf8.decodeLossy ran.output⟩,
      ran.disk)

/-- Calls the compiler; the disk may change with a program. -/
def call (compiler : Compiler) (source : Text) (disk : Disk) : Compiler × Call × Disk :=
  let calls := compiler.calls ++ [source]
  match compiler.kind with
  | .echo before failure => (⟨.echo before failure, calls⟩, ⟨source, 1, none⟩, disk)
  | .scripted [] => (⟨.scripted [], calls⟩, ⟨source, 0, some (.ok (.success source))⟩, disk)
  | .scripted (reply :: replies) =>
    let answer := match reply.answer with
      | .ok (status, message, text) => .ok ⟨status, message, text.getD source⟩
      | .error fault => .error fault
    (⟨.scripted replies, calls⟩, ⟨source, reply.pauses, some answer⟩, disk)
  | .program programs name arguments =>
    let (answer, disk) := runProgram programs name arguments source disk
    (⟨.program programs name arguments, calls⟩, ⟨source, 1, some answer⟩, disk)

/-- The answer to a call whose pauses are over. -/
def answer (compiler : Compiler) (call : Call) : Except Fault Report :=
  match call.answer with
  | some answer => answer
  | none =>
    match compiler.kind with
    | .echo _ (some (status, message)) => .ok (.failure status message)
    | .echo before none => .ok (.success (before ++ call.source))
    | _ => .ok (.success call.source)

end Compiler

end StyleBatch
