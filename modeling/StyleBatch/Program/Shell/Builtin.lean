import StyleBatch.Program.Shell.Condition
import StyleBatch.Program.Shell.Signal
import StyleBatch.Program.Shell.Streams

/-!
# Commands of a script itself

Commands that look at or change the state of the script, and run no other commands.
-/

namespace StyleBatch.Shell

open Script

/-- Runs a program under the name of a command of the script. -/
def runOwn (program : Program) (command : Text) (arguments : List Text) (s : State) : State :=
  s.runProgram program (s.errorName ++ ": " ++ command) arguments

/-! ## Variables -/

/-- A name and the value behind the sign, if there is one. -/
def splitAssignment (t : Text) : Text × Option Text :=
  match Text.cutAt? '=' t with
  | some (name, value) => (name, some value)
  | none => (t, none)

/-- Gives a variable the value that an argument holds, if it holds one. -/
def assignArgument (argument : Text) (s : State) : State :=
  match splitAssignment argument with
  | (name, some value) => s.assign name value
  | (_, none) => s

/-- A text in single quotes. -/
def inQuotes (t : Text) : Text :=
  ['\x27'] ++ t.flatMap (fun c => if c == '\x27' then "'\\''" else [c]) ++ ['\x27']

/-- Variables as commands that would set them. -/
def listing (command : Text) (names : List Text) (s : State) : Bytes :=
  let sorted := names.mergeSort fun a b => (Text.order a b).isLE
  sorted.flatMap fun name =>
    let value := match s.value? name with
      | some value => '=' :: inQuotes value
      | none => []
    Utf8.encode (command ++ name ++ value ++ ['\n'])

def exportNames (arguments : List Text) (s : State) : State :=
  match arguments.filter (· != ("-p" : Text)) with
  | [] => (s.emit 1 (listing "export " s.exported s)).withStatus 0
  | names =>
    (names.foldl (fun (s : State) a => (assignArgument a s).exporting (splitAssignment a).1)
      s).withStatus 0

def protectNames (arguments : List Text) (s : State) : State :=
  match arguments.filter (· != ("-p" : Text)) with
  | [] => (s.emit 1 (listing "readonly " s.readOnly s)).withStatus 0
  | names =>
    (names.foldl (fun (s : State) a =>
      let s := assignArgument a s
      { s with readOnly := s.readOnly ++ [(splitAssignment a).1] }) s).withStatus 0

/-- Makes variables local to the function that runs. -/
def makeLocal (arguments : List Text) (s : State) : State :=
  match s.locals with
  | [] => s.fail "local: not in a function"
  | frame :: frames =>
    (arguments.foldl (fun (s : State) a =>
      let name := (splitAssignment a).1
      let frame := s.locals.headD frame
      let frame := if Table.has frame name then frame else Table.set frame name (s.value? name)
      assignArgument a { s with locals := frame :: frames }) s).withStatus 0

/-- Gives the variables of a frame their old values. -/
def restore (frame : Table Text (Option Text)) (s : State) : State :=
  frame.foldl (fun s (name, value) =>
    match value with
    | some value => s.set name value
    | none => { s with bindings := s.bindings.filter fun binding => binding.1 != name }) s

def forget (arguments : List Text) (s : State) : State :=
  match arguments with
  | ['-', 'f'] :: names =>
    { s with status := 0, functions := s.functions.filter fun f => !names.contains f.1 }
  | ['-', 'v'] :: names => remove names
  | names => remove names
where
  /-- Removes variables, and functions where there is no variable. -/
  remove (names : List Text) : State :=
    (names.foldl (fun (s : State) name =>
      if s.readOnly.contains name then s.fail ("unset: " ++ name ++ ": is read only")
      else s.unset name) s).withStatus 0

/-! ## Options -/

/-- Options by letter and by name. -/
def optionNames : List (Char × Text) :=
  [('e', "errexit"), ('f', "noglob"), ('I', "ignoreeof"), ('i', "interactive"), ('m', "monitor"),
    ('n', "noexec"), ('s', "stdin"), ('x', "xtrace"), ('v', "verbose"), ('V', "vi"),
    ('E', "emacs"), ('C', "noclobber"), ('a', "allexport"), ('b', "notify"), ('u', "nounset")]

def setFlag (on : Bool) (letter : Char) (s : State) : State :=
  let others := s.flags.filter (· != letter)
  { s with flags := if on then others ++ [letter] else others }

/-- Sets options as arguments say; the rest of the arguments, or the trouble with an option. -/
def setOptions : List Text → State → Except Text (State × Option (List Text))
  | [], s => .ok (s, none)
  | ['-', '-'] :: rest, s => .ok (s, some rest)
  | [sign, 'o'] :: name :: rest, s =>
    if sign = '-' ∨ sign = '+' then
      match optionNames.find? fun o => o.2 == name with
      | some (letter, _) => setOptions rest (setFlag (sign = '-') letter s)
      | none => .error ("Illegal option -o " ++ name)
    else .ok (s, some ([sign, 'o'] :: name :: rest))
  | (sign :: letters) :: rest, s =>
    if (sign = '-' ∨ sign = '+') ∧ letters ≠ [] then
      match letters.find? fun c => !optionNames.any fun o => o.1 == c with
      | some bad => .error ("Illegal option " ++ [sign, bad])
      | none => setOptions rest (letters.foldl (fun s c => setFlag (sign = '-') c s) s)
    else .ok (s, some ((sign :: letters) :: rest))
  | [] :: rest, s => .ok (s, some ([] :: rest))

def setCommand (arguments : List Text) (s : State) : State :=
  match arguments with
  | [] => (s.emit 1 ((listing [] (Table.keys s.bindings) s))).withStatus 0
  | arguments =>
    match setOptions arguments s with
    | .error message => s.fail ("set: " ++ message)
    | .ok (s, none) => s.withStatus 0
    | .ok (s, some rest) => { s with arguments := rest, status := 0 }

/-! ## Reading -/

/-- A line of input up to its line feed, with escapes: each character and whether it was
escaped. The flag tells whether the line feed was there. -/
def readEscaped : Text → Pattern.Written × Bool × Text
  | [] => ([], false, [])
  | '\n' :: rest => ([], true, rest)
  | '\\' :: '\n' :: rest => readEscaped rest
  | '\\' :: c :: rest =>
    let (line, ended, rest) := readEscaped rest
    ((c, true) :: line, ended, rest)
  | c :: rest =>
    let (line, ended, rest) := readEscaped rest
    ((c, false) :: line, ended, rest)

/-- A line of input as it stands, and the bytes behind it. -/
def readRaw (input : Bytes) : Pattern.Written × Bool × Bytes :=
  let line := input.takeWhile (· != Bytes.lineFeed)
  let rest := input.drop line.length
  ((Utf8.decodeLossy (line.filter (· != 0))).map fun c => (c, false), !rest.isEmpty, rest.drop 1)

def isSeparator (separators : Text) (c : Char × Bool) : Bool :=
  !c.2 && separators.contains c.1

def isBlankSeparator (separators : Text) (c : Char × Bool) : Bool :=
  isSeparator separators c && isBlank c.1

/-- Cuts a line into so many values, of which the last takes all that is left. -/
def cutValues (separators : Text) : Nat → Pattern.Written → List Text
  | 0, _ => []
  | 1, line =>
    let line := line.dropWhile (isBlankSeparator separators)
    let trimmed := (line.reverse.dropWhile (isBlankSeparator separators)).reverse
    let single := match trimmed.getLast? with
      | some c => isSeparator separators c && !(trimmed.dropLast.any (isSeparator separators))
      | none => false
    [Pattern.plainText (if single then trimmed.dropLast else trimmed)]
  | n + 1, line =>
    let line := line.dropWhile (isBlankSeparator separators)
    let value := line.takeWhile fun c => !isSeparator separators c
    let rest := (line.drop value.length).dropWhile (isBlankSeparator separators)
    let rest := match rest with
      | c :: more => if isSeparator separators c then more else rest
      | [] => []
    Pattern.plainText value :: cutValues separators n rest

/-- Reads a line of the input into variables. -/
def readCommand (arguments : List Text) (s : State) : State :=
  let forms : List Program.OptionForm := [{ letter := 'r' }, { letter := 'p', takesValue := true }]
  match Program.parseArguments true forms arguments with
  | .error _ => s.refuse 2 "read: Illegal option"
  | .ok parsed =>
    if parsed.operands.isEmpty then s.refuse 2 "read: arg count"
    else
      let (line, ended, rest) :=
        if parsed.has 'r' || !(s.input.takeWhile (· != Bytes.lineFeed)).contains 92 then
          readRaw s.input
        else
          let (line, ended, rest) := readEscaped (Utf8.decodeLossy s.input)
          (line, ended, Utf8.encode rest)
      let values := cutValues s.separators parsed.operands.length line
      let s := { s with input := rest, status := if ended then 0 else 1 }
      (parsed.operands.zip values).foldl (fun (s : State) (name, value) => s.assign name value) s

/-! ## Directories -/

/-- The working directory as a path. -/
def directoryPath (disk : Disk) : Text :=
  '/' :: Text.joinWith "/" disk.workingDirectory

/-- Changes the working directory. -/
def changeDirectory (arguments : List Text) (s : State) : State :=
  let arguments := arguments.filter fun a => a != ("--" : Text) && a != "-L" && a != "-P"
  let (target, shown) := match arguments with
    | ['-'] :: _ => ((s.value? "OLDPWD").getD [], true)
    | target :: _ => (target, false)
    | [] => ((s.value? "HOME").getD [], false)
  if target.isEmpty then s.withStatus 0
  else match s.disk.lookup target, s.disk.place target with
    | .ok .directory, .ok place =>
      let old := directoryPath s.disk
      let s := { s with disk := { s.disk with workingDirectory := place.segments } }
      let s := (s.set "OLDPWD" old).set "PWD" (directoryPath s.disk)
      (if shown then s.emit 1 (Utf8.encode (target ++ ['\n'])) else s).withStatus 0
    | _, _ => s.refuse 2 ("cd: can't cd to " ++ target)

/-! ## Signals -/

def trapCommand (arguments : List Text) (s : State) : State :=
  match arguments.filter (· != ("--" : Text)) with
  | [] =>
    (s.emit 1 (s.traps.flatMap fun (signal, action) =>
      Utf8.encode ("trap -- " ++ inQuotes action ++ " " ++ signal ++ ['\n']))).withStatus 0
  | action :: signals =>
    let only := signals.isEmpty
    let signals := if only then [action] else signals
    let clears := only || action == ['-']
    signals.foldl (fun (s : State) signal =>
      let number? := if signal.map Char.toUpper == ("EXIT" : Text) then some 0
        else Signal.number? signal
      match number? with
      | none => (s.emit 2 (Utf8.encode ("trap: " ++ signal ++ ": bad trap\n"))).withStatus 1
      | some n =>
        let name := Signal.name n
        let others := s.traps.filter fun trap => trap.1 != name
        { s with traps := if clears then others else others ++ [(name, action)] })
      (s.withStatus 0)

/-- A signal for the script itself; what is to be run for it is the answer. -/
def takeSignal (n : Nat) (s : State) : State × Option Text :=
  if Signal.isHarmless n then (s.withStatus 0, none)
  else match if n = 9 then none else Table.get? s.traps (Signal.name n) with
    | some [] => (s.withStatus 0, none)
    | some action => (s.withStatus 0, some action)
    | none => ({ s with ending := some (.signal n) }, none)

def killUsage : Text :=
  "kill: Usage: kill [-s sigspec | -signum | -sigspec] [pid | job]... or\nkill -l [exitstatus]"

/-- The signal and the targets that arguments ask for. -/
def killArguments : List Text → Except Text (Nat × List Text)
  | ['-', 's'] :: signal :: targets =>
    match Signal.number? signal with
    | some n => .ok (n, targets)
    | none => .error ("invalid signal number or name: " ++ signal)
  | ['-', '-'] :: targets => .ok (15, targets)
  | ('-' :: signal) :: targets =>
    match Signal.number? signal with
    | some n => .ok (n, targets)
    | none => .error ("Illegal option -" ++ signal.take 1)
  | targets => .ok (15, targets)

/-! ## All of them -/

/-- Commands that belong to the script and run no others. -/
def builtin? (command : Text) (arguments : List Text) : Option (State → State) :=
  let test := fun (words : List Text) (s : State) =>
    match Condition.status s.disk words with
    | (status, none) => s.withStatus status
    | (status, some message) => s.refuse status (command ++ ": " ++ message)
  if command = ":" ∨ command = "true" then some (State.withStatus 0)
  else if command = "false" then some (State.withStatus 1)
  else if command = "echo" then some (runOwn Program.scriptEcho command arguments)
  else if command = "printf" then some (runOwn (Program.printf .script) command arguments)
  else if command = "pwd" then some (runOwn Program.pwd command arguments)
  else if command = "test" then some (test arguments)
  else if command = "[" then
    if arguments.getLast? = some "]" then some (test arguments.dropLast)
    else some (State.refuse 2 "[: missing ]")
  else if command = "cd" ∨ command = "chdir" then some (changeDirectory arguments)
  else if command = "export" then some (exportNames arguments)
  else if command = "readonly" then some (protectNames arguments)
  else if command = "local" then some (makeLocal arguments)
  else if command = "unset" then some (forget arguments)
  else if command = "set" then some (setCommand arguments)
  else if command = "read" then some (readCommand arguments)
  else if command = "trap" then some (trapCommand arguments)
  else if command = "umask" then
    some fun s => (if arguments.isEmpty then s.emit 1 (Program.ascii "0022\n") else s).withStatus 0
  else if command = "shift" then
    some fun s =>
      match Program.number? (arguments.headD "1") with
      | none => s.fail ("shift: Illegal number: " ++ arguments.headD [])
      | some n =>
        if n > s.arguments.length then s.fail "shift: can't shift that many"
        else { s with arguments := s.arguments.drop n, status := 0 }
  else if command = "exit" then
    some fun s =>
      match arguments with
      | [] => { s with ending := some .exit }
      | code :: _ =>
        match Program.number? code with
        | some code => { s with status := code, ending := some .exit }
        | none => s.fail ("exit: Illegal number: " ++ code)
  else if command = "return" then
    some fun s =>
      match arguments with
      | [] => { s with ending := some .leaveFunction }
      | code :: _ =>
        match Program.number? code with
        | some code => { s with status := code, ending := some .leaveFunction }
        | none => s.fail ("return: Illegal number: " ++ code)
  else if command = "break" ∨ command = "continue" then
    some fun s =>
      match Program.number? (arguments.headD "1") with
      | some (n + 1) =>
        let n := min (n + 1) s.loops
        let ending := if n = 0 then none
          else if command = "break" then some (Ending.leaveLoops n) else some (.nextRound n)
        { s with status := 0, ending }
      | _ => s.fail (command ++ ": Illegal number: " ++ arguments.headD [])
  else if ["wait", "hash", "jobs", "fg", "bg", "ulimit", "alias", "unalias", "times"].any
      fun (name : String) => command == name.toList then
    some (State.withStatus 0)
  else none

/-- Names of commands that run others. -/
def runners : List Text :=
  ["eval", ".", "command", "exec", "type", "kill"]

def isBuiltin (name : Text) : Bool :=
  (builtin? name []).isSome || runners.contains name

end StyleBatch.Shell
