import StyleBatch.Program.Base64
import StyleBatch.Program.Directories
import StyleBatch.Program.Editor.Run
import StyleBatch.Program.Files
import StyleBatch.Program.Lines
import StyleBatch.Program.Records.Run
import StyleBatch.Program.Runners
import StyleBatch.Program.Search
import StyleBatch.Program.Sort

/-!
# Starting programs

A program is started by its name, which is looked up in the directories of the path, or by a
path. No file on the disk can be executed, so a path to one is refused; only the system's own
directories hold programs.
-/

namespace StyleBatch.Program

/-- Tells by its exit whether a condition holds. -/
def condition : Program := fun p =>
  match Condition.status p.disk p.arguments with
  | (status, none) => p.exitWith status
  | (status, some message) => p.complain status message

/-- Programs that answer without reading anything. -/
def answering : Table Text Program :=
  [("true", fun p => p.exitWith 0), ("false", fun p => p.exitWith 1),
    ("sleep", fun p => p.exitWith 0), ("echo", echo), ("printf", printf .standalone), ("pwd", pwd),
    ("seq", seq), ("yes", yes), ("basename", basename), ("dirname", dirname),
    ("printenv", printenv), ("test", condition)]

/-- Programs that turn input into output. -/
def filters : Table Text Program :=
  [("cat", cat), ("tac", tac), ("rev", rev), ("head", head), ("tail", tail), ("wc", wc),
    ("tr", tr), ("sort", Sort.sort), ("uniq", uniq), ("cut", cut), ("nl", nl), ("paste", paste),
    ("fold", fold), ("expand", expand), ("base64", Base64.base64), ("tee", tee),
    ("sed", Editor.sed), ("grep", Search.grep)]

/-- Programs that look at files and directories or change them. -/
def fileTools : Table Text Program :=
  [("ls", ls), ("mkdir", mkdir), ("rmdir", rmdir), ("rm", rm), ("touch", touch), ("cp", cp),
    ("mv", mv)]

/-- The programs of the system that run no others. -/
def plainPrograms : Table Text Program :=
  answering ++ filters ++ fileTools

/-- Directories of the system that hold programs. -/
def programDirectories : List (List Text) :=
  [["usr", "bin"], ["bin"]]

/-- Where programs are looked for if no path is set. -/
def defaultPath : Text :=
  "/usr/local/sbin:/usr/local/bin:/usr/sbin:/usr/bin:/sbin:/bin"

/-- The longest name of a file. -/
def longestName : Nat := 255

/-- What starting the file at a path comes to. -/
def findAt (system? : Text → Option Program) (disk : Disk) (path : Text) :
    Except DiskFault Program :=
  match disk.place path with
  | .error fault => .error fault
  | .ok place =>
    let known := if programDirectories.contains place.segments.dropLast then
        place.segments.getLast?.bind system?
      else none
    match known with
    | some program => if place.asDirectory then .error .notDirectory else .ok program
    | none =>
      match disk.lookup path with
      | .ok _ => .error .notPermitted
      | .error fault => .error fault

/-- Tries directories one after the other; a refusal counts if no program is found. -/
def findIn (system? : Text → Option Program) (disk : Disk) (name : Text) (refused : Bool) :
    List Text → Except DiskFault Program
  | [] => .error (if refused then .notPermitted else .notFound)
  | directory :: rest =>
    let path := if directory.isEmpty then name else directory ++ '/' :: name
    match findAt system? disk path with
    | .ok program => .ok program
    | .error .notPermitted => findIn system? disk name true rest
    | .error .notFound => findIn system? disk name refused rest
    | .error .notDirectory => findIn system? disk name refused rest
    | .error fault => .error fault

/-- The program that a command names, given those of the system. -/
def findAmong (system? : Text → Option Program) (bindings : Variables) (disk : Disk)
    (command : Text) : Except DiskFault Program :=
  if command.isEmpty then .error .notFound
  else if command.contains '/' then findAt system? disk command
  else if Text.byteSize command > longestName then .error .nameTooLong
  else
    let path := (Table.get? bindings "PATH").getD defaultPath
    findIn system? disk command false (Text.splitAtEach ':' path)

/-- The programs of the system. Some start others, `depth` of them within each other. -/
def system? : Nat → Text → Option Program
  | 0, name => Table.get? plainPrograms name
  | depth + 1, name =>
    let finder := findAmong (system? depth)
    if name = "sh" ∨ name = "dash" then some (Shell.sh finder)
    else if name = "env" then some (env finder)
    else if name = "xargs" then some (xargs finder)
    else if name = "awk" ∨ name = "mawk" then some (Records.awk (Shell.sh finder))
    else Table.get? plainPrograms name

/-- Bound on programs that start others. -/
def startDepth : Nat := 16

/-- The program that a command names. -/
def find (bindings : Variables) (disk : Disk) (command : Text) : Except DiskFault Program :=
  findAmong (system? startDepth) bindings disk command

end StyleBatch.Program
