import StyleBatch.Command
import StyleBatch.CommandLine.Arguments
import StyleBatch.Config.Sources
import StyleBatch.Entries
import StyleBatch.Event.Trace
import StyleBatch.Listing
import StyleBatch.Paint
import StyleBatch.Pipeline
import StyleBatch.Variables.File

/-!
# The command line

One run of the program: the configuration is put together, the entry stylesheets are
submitted together as loads of one pipeline, and what the closing load is given is printed
or written. A run is a function of arguments, variables and disk.
-/

namespace StyleBatch

/-- How a run ended. -/
structure Ended where
  code : Nat
  output : Text := []
  errors : Text := []
  disk : Disk

namespace CommandLine

/-- The configuration of a run. Options override variables, and no load is deferred, since
every entry has to be compiled. -/
def configure (options : Options) (bindings : Variables) (disk : Disk) : Except Fault Config := do
  let config ← match options.config with
    | some path => Config.loadFrom disk path
    | none => Config.load disk bindings
  let config ← config.withVariables bindings
  let config := match options.compiler with
    | some line => config.withCommandLine line
    | none => config
  return { config with batch := { config.batch with deferFirstLoad := false } }

/-- The working directory as a path. -/
def workingPath (disk : Disk) : Text :=
  '/' :: Text.joinWith "/" disk.workingDirectory

/-- The text of a file. -/
def readFile (disk : Disk) (path : Text) : Except Fault Text :=
  match disk.readText path with
  | .ok t => .ok t
  | .error fault => .error (.io path fault.message)

/-- Entries with their texts. -/
def readEntries (config : Config) (paths : List Text) (bindings : Variables) (disk : Disk) :
    Except Fault (List (Text × Text)) := do
  let entries ← Entries.discover disk bindings config.imports.extension paths
  entries.mapM fun path => do return (path, ← readFile disk path)

/-- What is said when the compiling of entries begins. -/
def opening (paint : Paint) (config : Config) (entries : Nat) : Text :=
  paint.apply .cyan "→" ++ " " ++ Text.ofNat entries ++ " entries | compiler: " ++
    paint.apply .boldCyan config.compiler.command ++ " " ++
    Text.joinWith " " config.compiler.arguments ++ "\n"

/-- What is said about an entry that failed. -/
def failureLine (paint : Paint) (path : Text) (fault : Fault) : Text :=
  paint.apply .red "✗" ++ " " ++ path ++ ": " ++ fault.message ++ "\n"

/-- What is said about text that was compiled, and where it went. -/
def closing (paint : Paint) (css target : Text) : Text :=
  paint.apply .green "✓" ++ " " ++ Text.ofNat (Text.byteSize css) ++ " bytes → " ++ target ++ "\n"

/-- What is said at the end of a run that failed. -/
def ending (paint : Paint) (fault : Fault) : Text :=
  paint.apply .boldRed "Error:" ++ " " ++ fault.message ++ "\n  " ++ paint.apply .yellow "Fix:" ++
    " " ++ fault.suggestion ++ "\n"

/-- The first compile that failed. -/
def compileFault? (log : Log) : Option Fault :=
  log.findSome? fun e => match e.kind with
    | .compileFailed _ status message _ => some (.compileFailed status message)
    | _ => none

/-- The entries as loads of a new pipeline, submitted together and polled to the end. -/
def submitAll (config : Config) (bindings : Variables) (entries : List (Text × Text))
    (disk : Disk) : Pipeline :=
  let root := workingPath disk
  let compiler : Compiler :=
    { kind := .command config.compiler.command config.compiler.arguments bindings }
  let loads := entries.map fun (path, text) =>
    (({ address := Loader.addressOf root path, text } : Load), 0)
  (Pipeline.start config (.disk root) compiler disk).runLoads .translate loads

/-- The result of finished loads: their texts in the order of the entries, or the first fault
of a load or of the compiler. -/
def result (outcomes : List Outcome) (log : Log) : Outcome := do
  let texts ← outcomes.mapM id
  match compileFault? log with
  | some fault => throw fault
  | none => return texts.flatten

/-- What all commands of a run have in common. -/
structure Setting where
  config : Config
  bindings : Variables
  disk : Disk

def Setting.paint (s : Setting) : Paint :=
  Paint.ofVariables s.bindings

/-- Compiles entries: the result, what was said on the way and the disk afterwards. -/
def compileEntries (s : Setting) (paths : List Text) (trace : Option Text) :
    Outcome × Text × Disk :=
  match readEntries s.config paths s.bindings s.disk with
  | .error fault => (.error fault, [], s.disk)
  | .ok entries =>
    let begun := opening s.paint s.config entries.length
    let p := submitAll s.config s.bindings entries s.disk
    let traced := match trace with
      | some path => Log.save path p.log p.disk
      | none => .ok p.disk
    match traced with
    | .error fault => (.error fault, begun, p.disk)
    | .ok disk =>
      let outcomes := (List.range entries.length).map fun i => (p.outcome? i).getD (.ok [])
      let failures := (entries.zip outcomes).flatMap fun ((path, _), outcome) =>
        match outcome with
        | .error fault => failureLine s.paint path fault
        | .ok _ => []
      (result outcomes p.log, begun ++ failures, disk)

/-- The end of a run with a fault. -/
def failed (paint : Paint) (errors : Text) (fault : Fault) (disk : Disk) : Ended :=
  { code := 1, errors := errors ++ ending paint fault, disk }

/-- Compiles entries and prints the text; the artifact is kept. -/
def compile (s : Setting) (paths : List Text) (trace : Option Text) : Ended :=
  let s := { s with config := { s.config with environment := .authoritativeProcess } }
  match compileEntries s paths trace with
  | (.error fault, errors, disk) => failed s.paint errors fault disk
  | (.ok css, errors, disk) =>
    let target := s.paint.apply .cyan s.config.artifact.path
    { code := 0, output := css ++ ['\n'], errors := errors ++ closing s.paint css target, disk }

/-- Compiles entries for packaging, to a file or to the output. -/
def build (s : Setting) (paths : List Text) (output trace : Option Text) : Ended :=
  let s := { s with config := { s.config with environment := .packagingStep } }
  match compileEntries s paths trace with
  | (.error fault, errors, disk) => failed s.paint errors fault disk
  | (.ok css, errors, disk) =>
    match output with
    | none => { code := 0, output := css ++ ['\n'], errors, disk }
    | some path =>
      match disk.write path (Utf8.encode css) with
      | .error fault => failed s.paint errors (.io path fault.message) disk
      | .ok disk => { code := 0, errors := errors ++ closing s.paint css path, disk }

/-- Lists the imports of a file. -/
def imports (s : Setting) (file : Text) : Ended :=
  match readFile s.disk file with
  | .error fault => failed s.paint [] fault s.disk
  | .ok source =>
    { code := 0,
      output := Listing.write s.paint (workingPath s.disk) s.config.imports.extension file source,
      disk := s.disk }

/-- Does what is asked for. -/
def perform (request : Request) (bindings : Variables) (disk : Disk) : Ended :=
  match configure request.options bindings disk with
  | .error fault => failed (Paint.ofVariables bindings) [] fault disk
  | .ok config =>
    let s : Setting := ⟨config, bindings, disk⟩
    match request.action with
    | .compile paths => compile s paths request.options.trace
    | .build paths output => build s paths output request.options.trace
    | .imports file => imports s file

def usage : Text :=
  "Usage: sassline [OPTIONS] <COMMAND>\n"

def versionLine : Text :=
  "sassline 0.1.0\n"

/-- One run of the program. -/
def run (arguments : List Text) (bindings : Variables) (disk : Disk) : Ended :=
  let bindings := Variables.withFile disk bindings
  match Arguments.read arguments with
  | .error .help => { code := 0, output := usage, disk }
  | .error .version => { code := 0, output := versionLine, disk }
  | .error .misuse => { code := 2, errors := usage, disk }
  | .ok request => perform request bindings disk

end CommandLine

end StyleBatch
