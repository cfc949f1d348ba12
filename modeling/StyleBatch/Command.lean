import StyleBatch.Compiler
import StyleBatch.Program.Start

/-!
# Commands

A command as a compiler: a program of the system, looked up by the variables of the run and
started with them.
-/

namespace StyleBatch

/-- The programs of the system, which are given the variables. -/
def Programs.ofSystem (bindings : Variables) : Programs := fun disk name =>
  match Program.find bindings disk name with
  | .error fault => .error fault
  | .ok run => .ok fun arguments input disk =>
    let finished := run { name, arguments, bindings, input, disk }
    ⟨finished.exit.code?, finished.output, finished.errors, finished.disk⟩

/-- Runs a program of the system, which is given the variables. -/
def CompilerKind.command (name : Text) (arguments : List Text) (bindings : Variables) :
    CompilerKind :=
  .program (Programs.ofSystem bindings) name arguments

/-- Runs a command on a source. -/
def Compiler.runCommand (name : Text) (arguments : List Text) (bindings : Variables)
    (source : Text) (disk : Disk) : Except Fault Report × Disk :=
  runProgram (Programs.ofSystem bindings) name arguments source disk

end StyleBatch
