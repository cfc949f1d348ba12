import StyleBatch.Program.Script.Reader
import StyleBatch.Program.Shell.Builtin

/-!
# Running scripts

`sh` runs a script from its arguments, a file or its input. A command is one of the script
itself, a function or a program, which is looked up by the function `find`. Pipes run their
commands one after the other.
-/

namespace StyleBatch.Shell

open Script

/-- Ends the script after a command that failed, if the option asks for it; a command is tested
when something depends on its status. -/
def checked (tested : Bool) (s : State) : State :=
  if !tested && s.status != 0 && s.ending.isNone && s.flags.contains 'e' then
    { s with ending := some .exit }
  else s

/-- What a round of a loop leaves, and whether another one may follow. -/
def afterRound (s : State) : State × Bool :=
  match s.ending with
  | none => (s, true)
  | some (.leaveLoops (n + 2)) => ({ s with ending := some (.leaveLoops (n + 1)) }, false)
  | some (.leaveLoops _) => ({ s with ending := none }, false)
  | some (.nextRound (n + 2)) => ({ s with ending := some (.nextRound (n + 1)) }, false)
  | some (.nextRound _) => ({ s with ending := none }, true)
  | some _ => (s, false)

/-- Tells of a program that a signal has ended. -/
def announced (s : State) : State :=
  match s.died with
  | some n =>
    let epitaph := Signal.epitaph n
    let s := { s with died := none }
    if epitaph.isEmpty then s else s.emit 2 (Utf8.encode (epitaph ++ ['\n']))
  | none => s

/-- Runs something as a loop around others. -/
def inLoop (run : State → State) (s : State) : State :=
  let after := run { s with loops := s.loops + 1 }
  { after with loops := s.loops }

/-- Runs something with variables of its own, which programs are given. -/
def withBindings (bindings : List (Text × Text)) (run : State → State) (s : State) : State :=
  let frame := bindings.map fun (name, _) => (name, s.value? name)
  let exported := s.exported
  let s := bindings.foldl (fun (s : State) (name, value) =>
    (s.assign name value).exporting name) s
  if s.ending.isSome then s
  else
    let after := restore frame (run s)
    if bindings.isEmpty then after else { after with exported }

/-- Runs the body of a function. -/
def inFunction (arguments : List Text) (run : State → State) (s : State) : State :=
  let after := run { s with arguments, locals := [] :: s.locals, loops := 0 }
  let after := restore (after.locals.headD []) after
  let ending := if after.ending = some .leaveFunction then none else after.ending
  { after with arguments := s.arguments, locals := s.locals, loops := s.loops, ending }

/-- What a name stands for, as `command -v` tells it; nothing if it stands for nothing. -/
def standsFor (find : Finder) (s : State) (name : Text) : Option Text :=
  if keywords.contains name || isBuiltin name || Table.has s.functions name then some name
  else match find s.environment s.disk name with
    | .ok _ => some (if name.contains '/' then name else "/usr/bin/" ++ name)
    | .error _ => none

/-- What `type` says about a name. -/
def describe (find : Finder) (s : State) (name : Text) : Option Text :=
  if keywords.contains name then some (name ++ " is a shell keyword")
  else if Table.has s.functions name then some (name ++ " is a shell function")
  else if specialNames.contains name then some (name ++ " is a special shell builtin")
  else if isBuiltin name then some (name ++ " is a shell builtin")
  else (standsFor find s name).map fun path => name ++ " is " ++ path

/-- Runs a program by its name. -/
def runNamed (find : Finder) (name : Text) (arguments : List Text) (s : State) : State :=
  if name.isEmpty then s.refuse 127 ": Permission denied"
  else match find s.environment s.disk name with
  | .ok program => s.runProgram program name arguments
  | .error .notFound => s.refuse 127 (name ++ ": not found")
  | .error .notDirectory => s.refuse 127 (name ++ ": not found")
  | .error fault => s.refuse 126 (name ++ ": " ++ fault.reason)

/-- Shows a command before it runs, if the option asks for it. -/
def traced (assignments : List (Text × Text)) (words : List Text) (s : State) : State :=
  if !s.flags.contains 'x' then s
  else
    let shown := assignments.map (fun (name, value) => name ++ '=' :: value) ++ words
    s.emit 2 (Utf8.encode ("+ " ++ Text.joinWith " " shown ++ ['\n']))

mutual

/-- Runs a command; the fuel bounds the depth and the rounds of loops. A `tested` command may
fail without ending the script. After an ending nothing runs any more. -/
def run (find : Finder) : Nat → Bool → Command → State → State
  | 0, _, _, s => s
  | fuel + 1, tested, command, s =>
    let capture : Capture := fun s line text =>
      State.capture (State.apart (runText find fuel tested line text)) s
    if s.ending.isSome || s.flags.contains 'n' then s
    else match command with
    | .nothing => s
    | .simple line assignments words rs =>
      let (s, arguments) := expandWords capture { s with line, caught := none } words
      let (s, rs) := targets capture s rs
      let (s, bindings) := assignments.foldl (fun ((s : State), done) (name, w) =>
        let (s, value) := expandText capture s w
        (s, done ++ [(name, value)])) (s, [])
      if s.ending.isSome then s
      else
        let s := traced bindings arguments s
        checked tested (announced (match arguments with
        | [] =>
          let s := s.withStatus (s.caught.getD 0)
          redirected false rs (fun s =>
            bindings.foldl (fun (s : State) (name, value) => s.assign name value) s) s
        | name :: arguments =>
          if name = "exec" then
            let s := bindings.foldl (fun (s : State) (name, value) => s.assign name value) s
            match arguments with
            | [] => redirectRest rs s
            | name :: arguments =>
              let s := redirected true rs (fun s =>
                match find s.environment s.disk name with
                | .error .notFound => s.refuse 127 ("exec: " ++ name ++ ": not found")
                | .error fault => s.refuse 126 ("exec: " ++ name ++ ": " ++ fault.reason)
                | .ok _ => runNamed find name arguments s) s
              { s with ending := s.ending.orElse fun _ => some .exit }
          else if specialNames.contains name then
            let s := bindings.foldl (fun (s : State) (name, value) => s.assign name value) s
            redirected true rs (call find fuel tested name arguments) s
          else
            redirected false rs (withBindings bindings (call find fuel tested name arguments)) s))
    | .sequence first second =>
      run find fuel tested second (run find fuel tested first s)
    | .both first second =>
      let s := run find fuel true first s
      if s.status = 0 then run find fuel tested second s else s
    | .either first second =>
      let s := run find fuel true first s
      if s.status = 0 then s else run find fuel tested second s
    | .negated command =>
      let s := run find fuel true command s
      if s.ending.isSome then s else s.withStatus (if s.status = 0 then 1 else 0)
    | .background command =>
      let after := State.apart (run find fuel tested command) { s with input := [] }
      { after with input := s.input, status := 0 }
    | .apart command => checked tested (State.apart (run find fuel tested command) s)
    | .redirected line command rs =>
      let (s, rs) := targets capture { s with line } rs
      if s.ending.isSome then s
      else checked tested (redirected false rs (run find fuel tested command) s)
    | .choice condition yes no =>
      let s := run find fuel true condition s
      if s.ending.isSome then s
      else if s.status = 0 then run find fuel tested yes s
      else match no with
        | .nothing => s.withStatus 0
        | no => run find fuel tested no s
    | .loop until_ condition body =>
      inLoop (rounds find fuel tested until_ condition body 0) s
    | .each line name words body =>
      let s := { s with line }
      let (s, values) := match words with
        | some words => expandWords capture s words
        | none => (s, s.arguments)
      if s.ending.isSome then s
      else inLoop (roundsFor find fuel tested name body values) (s.withStatus 0)
    | .select line subject all =>
      let (s, value) := expandText capture { s with line } subject
      if s.ending.isSome then s else choose find fuel tested value all s
    | .arm _ body _ => run find fuel tested body s
    | .define name body => { s with functions := Table.set s.functions name body, status := 0 }
    | .pipe first second =>
      let (left, bytes) := State.capture (State.apart (run find fuel tested first)) s
      let right := State.apart (run find fuel tested second) { left with input := bytes }
      checked tested { right with input := left.input }

/-- Rounds of a loop; `status` is that of the last one. -/
def rounds (find : Finder) : Nat → Bool → Bool → Command → Command → Nat → State → State
  | 0, _, _, _, _, _, s => s
  | fuel + 1, tested, until_, condition, body, status, s =>
    let s := run find fuel true condition s
    match s.ending with
    | some _ => (afterRound s).1
    | none =>
      if (s.status == 0) == until_ then s.withStatus status
      else
        match afterRound (run find fuel tested body s) with
        | (s, false) => s
        | (s, true) => rounds find fuel tested until_ condition body s.status s

/-- Rounds of a loop over values. -/
def roundsFor (find : Finder) : Nat → Bool → Text → Command → List Text → State → State
  | 0, _, _, _, _, s => s
  | _ + 1, _, _, _, [], s => s
  | fuel + 1, tested, name, body, value :: values, s =>
    match afterRound (run find fuel tested body (s.assign name value)) with
    | (s, false) => s
    | (s, true) => roundsFor find fuel tested name body values s

/-- Runs the first arm of which a pattern fits. -/
def choose (find : Finder) : Nat → Bool → Text → Command → State → State
  | 0, _, _, _, s => s
  | fuel + 1, tested, value, all, s =>
    match all with
    | .arm patterns body rest =>
      let capture : Capture := fun s line text =>
        State.capture (State.apart (runText find fuel tested line text)) s
      let (s, fits) := patterns.foldl (fun ((s : State), fits) w =>
        if fits || s.ending.isSome then (s, fits)
        else
          let (s, parts) := expandWord capture s w
          (s, (patternOf parts).fits value)) (s, false)
      if s.ending.isSome then s
      else if fits then
        match body with
        | .nothing => s.withStatus 0
        | body => run find fuel tested body s
      else choose find fuel tested value rest s
    | _ => s.withStatus 0

/-- Runs the text of a script that begins in the given line. -/
def runText (find : Finder) : Nat → Bool → Nat → Text → State → State
  | 0, _, _, _, s => s
  | fuel + 1, tested, line, text, s =>
    let (commands, trouble) := Script.read line text
    let s := commands.foldl (fun s command => run find fuel tested command s) s
    match trouble with
    | some trouble =>
      if s.ending.isSome then s
      else State.fail ("Syntax error: " ++ trouble.message) { s with line := trouble.line }
    | none => s

/-- Runs a command by its name: one of the script itself, a function or a program. -/
def call (find : Finder) : Nat → Bool → Text → List Text → State → State
  | 0, _, _, _, s => s
  | fuel + 1, tested, name, arguments, s =>
    let function? := if specialNames.contains name then none else Table.get? s.functions name
    match function? with
    | some body => inFunction arguments (run find fuel tested body) s
    | none =>
      if name = "eval" then
        State.onBehalfOf "eval: "
          (runText find fuel tested s.line (Text.joinWith " " arguments)) (s.withStatus 0)
      else if name = "." then
        match arguments with
        | [] => s.fail ".: filename argument required"
        | path :: _ =>
          match s.disk.read path with
          | .ok bytes =>
            if path.contains '/' then
              let after := State.onBehalfOf (path ++ ": ")
                (runText find fuel tested 1 (Utf8.decodeLossy bytes)) s
              if after.ending = some .leaveFunction then { after with ending := none } else after
            else s.fail (".: " ++ path ++ ": not found")
          | .error fault =>
            if path.contains '/' then s.fail (".: " ++ openingTrouble path fault)
            else s.fail (".: " ++ path ++ ": not found")
      else if name = "command" then
        match arguments with
        | ['-', 'v'] :: name :: _ =>
          match standsFor find s name with
          | some t => (s.emit 1 (Utf8.encode (t ++ ['\n']))).withStatus 0
          | none => s.withStatus 127
        | ['-', 'V'] :: name :: _ => tell find [name] s
        | ['-', 'p'] :: name :: arguments => plain find fuel tested name arguments s
        | ['-', '-'] :: name :: arguments => plain find fuel tested name arguments s
        | name :: arguments => plain find fuel tested name arguments s
        | [] => s.withStatus 0
      else if name = "type" then tell find arguments s
      else if name = "kill" then
        match killArguments arguments with
        | .error message => s.refuse 2 ("kill: " ++ message)
        | .ok (n, targets) =>
          if targets.contains "32768" || targets.contains "0" then
            match takeSignal n s with
            | (s, some action) => runText find fuel tested s.line action s
            | (s, none) => s
          else match targets.find? fun t => (Program.signed? t).isNone with
            | some t => s.refuse 2 ("kill: Illegal number: " ++ t)
            | none =>
              if targets.isEmpty then s.refuse 2 killUsage
              else s.refuse 1 "kill: No such process"
      else plain find fuel tested name arguments s

/-- Runs a command that is no function. -/
def plain (find : Finder) : Nat → Bool → Text → List Text → State → State
  | 0, _, _, _, s => s
  | fuel + 1, tested, name, arguments, s =>
    match builtin? name arguments with
    | some run => State.onBehalfOf [] run s
    | none =>
      if runners.contains name && name != "exec" then
        call find fuel tested name arguments { s with functions := [] }
      else runNamed find name arguments s

/-- Tells what names stand for. -/
def tell (find : Finder) (names : List Text) (s : State) : State :=
  names.foldl (fun (s : State) name =>
    match describe find s name with
    | some t => s.emit 1 (Utf8.encode (t ++ ['\n']))
    | none => (s.emit 1 (Utf8.encode (name ++ ": not found\n"))).withStatus 127) (s.withStatus 0)

end

/-! ## The program -/

/-- Bound on the depth of commands and the rounds of loops. -/
def runFuel : Nat := 100000000

/-- Runs what is to be run at the end of a script; the status is kept. -/
def atEnd (find : Finder) (s : State) : State :=
  match Table.get? s.traps "EXIT", s.ending with
  | some action, ending =>
    if ending matches some (.signal _) then s
    else
      let after := runText find runFuel true s.line action { s with ending := none, traps := [] }
      if after.ending.isSome then after else after.withStatus s.status
  | none, _ => s

/-- Runs the text of a script. -/
def script (find : Finder) (flags text name : Text) (arguments : List Text) (p : Process) :
    Finished :=
  let s : State := {
    name, arguments, flags, input := p.input, disk := p.disk
    bindings := p.bindings, exported := Table.keys p.bindings }
  let given : Variables := [("PWD", directoryPath p.disk), ("OPTIND", "1"), ("IFS", " \t\n"),
    ("PS1", "# "), ("PS2", "> "), ("PS4", "+ ")]
  let s := given.foldl (fun (s : State) (name, value) => s.set name value) s
  let s := atEnd find (runText find runFuel false 1 text s)
  let exit := match s.ending with
    | some (.signal n) => Exit.signal n
    | _ => .code (s.status % 256)
  ⟨exit, s.streamOf 1, s.streamOf 2, s.input,
    { s.disk with workingDirectory := p.disk.workingDirectory }⟩

/-- What the arguments of a shell ask for. -/
structure Invoked where
  flags : Text := []
  /-- Whether the script stands among the arguments. -/
  given : Bool := false
  rest : List Text := []

/-- Reads the arguments of a shell; the trouble is an option that it does not have. -/
def readInvocation (found : Invoked) : List Text → Except Text Invoked
  | [] => .ok found
  | ['-', '-'] :: rest => .ok { found with rest }
  | ['-'] :: rest => .ok { found with rest }
  | ['-', 'o'] :: name :: rest =>
    match optionNames.find? fun o => o.2 == name with
    | some (letter, _) => readInvocation { found with flags := found.flags ++ [letter] } rest
    | none => .error ("Illegal option -o " ++ name)
  | ('-' :: letters) :: rest =>
    let flags := letters.filter (· != 'c')
    match flags.find? fun c => !optionNames.any fun o => o.1 == c with
    | some bad => .error ("Illegal option -" ++ [bad])
    | none =>
      readInvocation
        { found with flags := found.flags ++ flags, given := found.given || letters.contains 'c' }
        rest
  | argument :: rest => .ok { found with rest := argument :: rest }

/-- The shell: runs the script in its arguments, in a file or in its input. -/
def sh (find : Finder) : Program := fun p =>
  let trouble := fun (message : Text) => p.complain 2 ("0: " ++ message)
  match readInvocation {} p.arguments with
  | .error message => trouble message
  | .ok found =>
    if found.given then
      match found.rest with
      | text :: name :: arguments => script find found.flags text name arguments p
      | [text] => script find found.flags text p.name [] p
      | [] => trouble "-c requires an argument"
    else match found.rest, found.flags.contains 's' with
      | file :: arguments, false =>
        match p.disk.read file with
        | .ok bytes => script find found.flags (Utf8.decodeLossy bytes) file arguments p
        | .error fault => trouble (openingTrouble file fault)
      | arguments, _ =>
        script find found.flags (Utf8.decodeLossy p.input) p.name arguments { p with input := [] }

end StyleBatch.Shell
