import StyleBatch.Program.Shell

/-!
# Programs that run others

What they run is looked up by a function that they are given.
-/

namespace StyleBatch.Program

/-- The variables that arguments set, on top of those that are there, and the command behind. -/
def withVariables : Variables → List Text → Variables × List Text
  | bindings, ['-', 'i'] :: rest => withVariables (bindings.filter fun _ => false) rest
  | bindings, ['-'] :: rest => withVariables (bindings.filter fun _ => false) rest
  | bindings, ['-', 'u'] :: name :: rest =>
    withVariables (bindings.filter fun binding => binding.1 != name) rest
  | bindings, argument :: rest =>
    match Text.cutAt? '=' argument with
    | some (name, value) => withVariables (Table.set bindings name value) rest
    | none => (bindings, argument :: rest)
  | bindings, [] => (bindings, [])

/-- Variables with their values, one in each line. -/
def bindingLines (bindings : Variables) : Bytes :=
  bindings.flatMap fun (name, value) => Utf8.encode (name ++ '=' :: value ++ ['\n'])

/-- Runs a command with other variables, or shows them all. -/
def env (find : Shell.Finder) : Program := fun p =>
  match withVariables p.bindings p.arguments with
  | (bindings, []) => p.print (bindingLines bindings)
  | (bindings, command :: arguments) =>
    match find bindings p.disk command with
    | .ok program => program { p with name := command, arguments, bindings }
    | .error fault =>
      p.complain (if fault = .notFound then 127 else 126)
        (quoteName command ++ ": " ++ fault.reason)

/-- Shows the values of variables, or all of them. -/
def printenv : Program := fun p =>
  if p.arguments.isEmpty then p.print (bindingLines p.bindings)
  else
    let values := p.arguments.filterMap (Table.get? p.bindings)
    let code := if values.length = p.arguments.length then 0 else 1
    { p.exitWith code with output := values.flatMap fun t => Utf8.encode (t ++ ['\n']) }

/-! ## Arguments from the input -/

/-- What is read of an item so far, its last character first; nothing between items. -/
structure Item where
  reversed : Option Text := none
  /-- The quote that is open. -/
  quote : Option Char := none
  escaped : Bool := false
  done : List Text := []

def Item.add (c : Char) (i : Item) : Item :=
  { i with reversed := some (c :: i.reversed.getD []), escaped := false }

def Item.cut (i : Item) : Item :=
  match i.reversed with
  | some t => { i with reversed := none, done := t.reverse :: i.done }
  | none => i

/-- Goes on by one character; some cut unless they are quoted. -/
def Item.step (cuts : Char → Bool) (i : Item) (c : Char) : Item :=
  if i.escaped then i.add c
  else match i.quote with
    | some q =>
      if c = q then { i with quote := none }
      else if c = '\n' then i
      else i.add c
    | none =>
      if c = '\x27' ∨ c = '"' then { i with quote := some c, reversed := some (i.reversed.getD []) }
      else if c = '\\' then { i with escaped := true }
      else if cuts c then i.cut
      else i.add c

def isBetween (c : Char) : Bool :=
  c == ' ' || c == '\t' || c == '\n'

/-- The items of a text; the trouble is a quote that stays open. -/
def itemsOf (cuts : Char → Bool) (t : Text) : Except Text (List Text) :=
  let read := t.foldl (Item.step cuts) {}
  match read.quote with
  | some q =>
    let kind : Text := if q = '"' then "double" else "single"
    .error ("unmatched " ++ kind ++ " quote; by default quotes are special to xargs " ++
      "unless you use the -0 option")
  | none => .ok read.cut.done.reverse

/-- Groups of so many. -/
def grouped (size : Nat) : Nat → List Text → List (List Text)
  | 0, _ => []
  | _ + 1, [] => []
  | fuel + 1, items => items.take size :: grouped size fuel (items.drop size)

/-- Every occurrence of a mark becomes the replacement; `fuel` bounds their number. -/
def replaceAll (mark replacement : Text) : Nat → Text → Text
  | 0, t => t
  | fuel + 1, t =>
    match Text.cut? mark t with
    | some (before, after) => before ++ replacement ++ replaceAll mark replacement fuel after
    | none => t

/-- Runs one command behind others. -/
def runNext (find : Shell.Finder) (p : Process) (so : Finished) (words : List Text) : Finished :=
  match words with
  | [] => so
  | command :: arguments =>
    if so.exit matches .code 126 ∨ so.exit matches .code 127 then so
    else match find p.bindings so.disk command with
      | .error fault =>
        let failed := p.complain (if fault = .notFound then 127 else 126)
          (quoteNameIfNeeded command ++ ": " ++ fault.reason)
        { so with exit := failed.exit, errors := so.errors ++ failed.errors }
      | .ok program =>
        let done := program { p with name := command, arguments, input := [], disk := so.disk }
        let exit := if done.exit = .code 0 then so.exit else .code 123
        ⟨exit, so.output ++ done.output, so.errors ++ done.errors, so.unread, done.disk⟩

def xargsForms : List OptionForm :=
  [⟨'n', true, "max-args"⟩, { letter := 'I', takesValue := true }, ⟨'0', false, "null"⟩,
    ⟨'r', false, "no-run-if-empty"⟩, ⟨'d', true, "delimiter"⟩, ⟨'L', true, "max-lines"⟩]

/-- Runs a command with arguments from the input, all at once or a few at a time. -/
def xargs (find : Shell.Finder) : Program := fun p =>
  match parseArguments true xargsForms p.arguments with
  | .error message => p.misuse 1 message
  | .ok parsed =>
    let t := Utf8.decodeLossy p.input
    let command : List Text := if parsed.operands.isEmpty then ["echo"] else parsed.operands
    let separated := fun (c : Char) =>
      let pieces := Text.splitAtEach c t
      if pieces.getLast? = some [] then pieces.dropLast else pieces
    let lines := (separated '\n').map fun line => line.dropWhile isBetween
    let items : Except Text (List Text) :=
      if parsed.has '0' then .ok (separated '\x00')
      else match parsed.value? 'd', parsed.value? 'I' with
        | some (c :: _), _ => .ok (separated c)
        | _, some _ => itemsOf (· == '\n') (Text.joinWith ['\n'] lines)
        | _, none => itemsOf isBetween t
    match items, parsed.value? 'n' with
    | _, some ['0'] => p.misuse 1 "value 0 for -n option should be >= 1"
    | .error message, _ => { p.complain 1 message with unread := [] }
    | .ok items, _ =>
      let commands := match parsed.value? 'I' with
        | some mark => items.map fun item =>
          command.map fun (word : Text) => replaceAll mark item word.length word
        | none =>
          let size := (((parsed.value? 'n').orElse fun _ => parsed.value? 'L').bind number?).getD
            (items.length + 1)
          let groups := grouped (max size 1) (items.length + 1) items
          let groups := if groups.isEmpty && !parsed.has 'r' then [[]] else groups
          groups.map fun group => command ++ group
      commands.foldl (runNext find p) { p.exitWith 0 with unread := [] }

end StyleBatch.Program
