import StyleBatch.Program.Editor.Reader
import StyleBatch.Program.Reading

/-!
# Running editing scripts

The editor takes line after line, runs the script on it and prints what came of it. Lines are
taken as bytes. A last line without an ending is printed without one, unless more follows.
-/

namespace StyleBatch.Editor

/-- A line of input. -/
structure Line where
  file : Text
  text : Text
  /-- Whether it has an ending. -/
  ended : Bool

/-- What is printed behind a line. -/
inductive Appended where
  | text (t : Text)
  | file (name : Text)

/-- Output: its pieces with the last in front, and whether the last line lacks its ending. -/
structure Printed where
  pieces : List Text := []
  open_ : Bool := false

structure State where
  disk : Disk
  /-- What ends a line. -/
  ending : Char
  quiet : Bool
  /-- How wide listed lines may become. -/
  width : Nat
  line : Line := ⟨[], [], true⟩
  number : Nat := 0
  held : Text := []
  rest : List Line := []
  output : Printed := {}
  files : Table Text Printed := []
  appended : List Appended := []
  replaced : Bool := false
  /-- The ranges that lines are in, by the place of their command, with the line that ends them. -/
  ranges : Table Nat (Option Nat) := []
  search? : Option (Regex × Regex.Options) := none
  /-- Why nothing more can be done. -/
  trouble? : Option Text := none
  code? : Option Nat := none

/-- How a run of the script over a line ended. -/
inductive Ending where
  | printing
  | silent
  /-- The script starts again on what is left of the line. -/
  | again
deriving DecidableEq, Repr

/-! ## Output -/

/-- Ends a line that lacks its ending. -/
def Printed.close (ending : Char) (o : Printed) : Printed :=
  if o.open_ then ⟨[ending] :: o.pieces, false⟩ else o

/-- Adds text as it is. -/
def Printed.add (ending : Char) (t : Text) (o : Printed) : Printed :=
  { o.close ending with pieces := t :: (o.close ending).pieces }

/-- Adds a line, with its ending if it has one. -/
def Printed.addLine (ending : Char) (t : Text) (ended : Bool) (o : Printed) : Printed :=
  let o := o.add ending t
  if ended then { o with pieces := [ending] :: o.pieces } else { o with open_ := true }

def Printed.text (o : Printed) : Text :=
  o.pieces.reverse.flatten

namespace State

def emit (t : Text) (s : State) : State :=
  { s with output := s.output.add s.ending t }

/-- Prints text as a line, which ends like the line at hand. -/
def printLine (t : Text) (s : State) : State :=
  { s with output := s.output.addLine s.ending t s.line.ended }

def autoprint (s : State) : State :=
  if s.quiet then s else s.printLine s.line.text

/-- Prints text to a file. -/
def writeTo (name t : Text) (s : State) : State :=
  if name = "/dev/stdout" then s.printLine t
  else
    let o := (Table.get? s.files name).getD {}
    { s with files := Table.set s.files name (o.addLine s.ending t s.line.ended) }

/-- Prints what commands have appended. -/
def flush (s : State) : State :=
  let s := s.appended.foldl (fun (s : State) a =>
    match a with
    | .text t => s.emit t
    | .file name =>
      match s.disk.read name with
      | .ok bytes => if bytes.isEmpty then s else s.emit (Program.bytesAsText bytes)
      | .error _ => s) s
  { s with appended := [] }

def isLast (s : State) : Bool :=
  s.rest.isEmpty

/-- Takes the next line. -/
def advance (s : State) : Option State :=
  match s.rest with
  | [] => none
  | next :: rest =>
    some { s.flush with line := next, rest, number := s.number + 1, replaced := false }

/-- Puts text in place of the line at hand. -/
def withText (t : Text) (s : State) : State :=
  { s with line := { s.line with text := t } }

end State

/-! ## Searching -/

/-- The expression to look for, which becomes the last one. -/
def Search.resolve (search : Search) (s : State) : State × Option (Regex × Regex.Options) :=
  match search.regex?, s.search? with
  | some r, _ => ({ s with search? := some (r, search.options) }, some (r, search.options))
  | none, some last => (s, some last)
  | none, none => ({ s with trouble? := some "no previous regular expression" }, none)

def Search.isIn (search : Search) (s : State) : State × Bool :=
  match search.resolve s with
  | (s, some (r, options)) => (s, r.isIn options s.line.text)
  | (s, none) => (s, false)

/-! ## Scopes -/

def Address.fits (s : State) : Address → State × Bool
  | .line n => (s, s.number == n)
  | .every first step =>
    (s, if step = 0 then s.number == first
      else decide (first ≤ s.number) && (s.number - first) % step == 0)
  | .last => (s, s.isLast)
  | .match search => search.isIn s

/-- The line that a range that starts here ends with: nothing if it is over at once, no line if an
address has to be looked for. -/
def RangeEnd.limit? (number : Nat) : RangeEnd → Option (Option Nat)
  | .address (.line n) => if n ≤ number then none else some (some n)
  | .address _ => some none
  | .after 0 => none
  | .after count => some (some (number + count))
  | .multiple 0 => none
  | .multiple n =>
    let last := (number + n - 1) / n * n
    if last ≤ number then none else some (some last)

/-- Whether the line at hand is in a range; `place` is that of the command. -/
def inRange (place : Nat) (first : Address) (last : RangeEnd) (s : State) : State × Bool :=
  let close := fun (s : State) =>
    { s with ranges := s.ranges.filter fun entry => entry.1 != place }
  let entered := if Table.has s.ranges place then Table.get? s.ranges place
    else if first = .line 0 ∧ s.number = 1 then some none
    else none
  match entered with
  | some (some n) => (if n ≤ s.number then close s else s, decide (s.number ≤ n))
  | some none =>
    let s := { s with ranges := Table.set s.ranges place none }
    match last with
    | .address a =>
      let (s, ends) := a.fits s
      (if ends then close s else s, true)
    | _ => (close s, true)
  | none =>
    let (s, starts) := first.fits s
    if !starts then (s, false)
    else match last.limit? s.number with
      | none => (s, true)
      | some limit => ({ s with ranges := Table.set s.ranges place limit }, true)

/-- Whether a command applies to the line at hand. -/
def Command.applies (c : Command) (place : Nat) (s : State) : State × Bool :=
  let (s, fits) := match c.scope with
    | .all => (s, true)
    | .at a => a.fits s
    | .range first last => inRange place first last s
  (s, fits != c.negated)

/-! ## Substituting -/

/-- Changes of case that are in force: one that lasts, and one for the next character. -/
structure Case where
  lasting : Char := 'E'
  once? : Option Char := none

/-- Text under changes of case. -/
def Case.apply (k : Case) (t : Text) : Text :=
  let change := fun (mark c : Char) =>
    if mark = 'U' ∨ mark = 'u' then c.toUpper
    else if mark = 'L' ∨ mark = 'l' then c.toLower
    else c
  match t, k.once? with
  | c :: rest, some mark => change mark c :: rest.map (change k.lasting)
  | t, _ => t.map (change k.lasting)

/-- What a replacement comes to for a match. -/
def expand (all : Text) (groups : List (Nat × Text)) (replacement : List Piece) : Text :=
  (replacement.foldl (fun ((k : Case), done) piece =>
    let add := fun (t : Text) =>
      if t.isEmpty then (k, done) else ({ k with once? := none }, k.apply t :: done)
    match piece with
    | .text t => add t
    | .group 0 => add all
    | .group n => add (((groups.find? fun g => g.1 == n).map Prod.snd).getD [])
    | .case mark =>
      if mark = 'l' ∨ mark = 'u' then ({ k with once? := some mark }, done)
      else ({ lasting := mark, once? := none }, done)) ({}, ([] : List Text))).2.reverse.flatten

/-- Replaces matches from a spot on. `left` counts the matches to be passed over, `after` tells
whether a match has just ended here. The result is nothing if no match was replaced. -/
def replaceFrom (r : Regex) (options : Regex.Options) (u : Substitution) :
    Nat → Nat → Bool → Regex.Spot → Text × Bool
  | 0, _, _, s => (s.rest, false)
  | fuel + 1, left, after, s =>
    match r.search options fuel s with
    | none => (s.rest, false)
    | some (start, stop) =>
      let skipped := s.rest.take (start.position - s.position)
      let matched := start.rest.take (stop.position - start.position)
      let clean := { stop with groups := [] }
      /- Goes on behind the match; an empty one takes the next character with it. -/
      let goOn := fun (left : Nat) (t : Text) =>
        match matched, stop.rest with
        | [], [] => (t, false)
        | [], c :: rest =>
          let (more, replaced) := replaceFrom r options u fuel left false (clean.next c rest)
          (t ++ c :: more, replaced)
        | _, _ =>
          let (more, replaced) := replaceFrom r options u fuel left true clean
          (t ++ more, replaced)
      if matched.isEmpty && after && start.position == s.position then goOn left skipped
      else match left with
        | left + 1 => goOn left (skipped ++ matched)
        | 0 =>
          let t := skipped ++ expand matched stop.groups u.replacement
          if u.all then ((goOn 0 t).1, true) else (t ++ stop.rest, true)

def Substitution.run (u : Substitution) (s : State) : State :=
  match u.search.resolve s with
  | (s, none) => s
  | (s, some (r, options)) =>
    let t := s.line.text
    match replaceFrom r options u (2 * t.length + 2) (u.count - 1) false (Regex.Spot.first t) with
    | (_, false) => s
    | (t, true) =>
      let s := { s.withText t with replaced := true }
      let s := if u.prints then s.printLine t else s
      match u.file? with
      | some name => s.writeTo name t
      | none => s

/-! ## Listing -/

/-- A character as it is listed. -/
def listed (c : Char) : Text :=
  if c = '\\' then "\\\\"
  else if c = '\x07' then "\\a"
  else if c = '\x08' then "\\b"
  else if c = '\x0c' then "\\f"
  else if c = '\n' then "\\n"
  else if c = '\r' then "\\r"
  else if c = '\t' then "\\t"
  else if c = '\x0b' then "\\v"
  else if 32 ≤ c.toNat ∧ c.toNat < 127 then [c]
  else
    let digit := fun (n : Nat) => Char.ofNat (48 + n % 8)
    ['\\', digit (c.toNat / 64), digit (c.toNat / 8), digit c.toNat]

/-- A line as it is listed, folded at a width unless it is too small. -/
def listing (width : Nat) (t : Text) : Text :=
  let (_, done) := t.foldl (fun ((used : Nat), (done : List Text)) c =>
    let shown := listed c
    if width > 1 ∧ used + shown.length > width - 1 then
      (shown.length, shown :: ['\\', '\n'] :: done)
    else (used + shown.length, shown :: done)) (0, [])
  done.reverse.flatten ++ ['$', '\n']

/-! ## Running -/

/-- The place behind the end of the block that is opened in front; `depth` counts the blocks. -/
def blockEnd (script : Array Command) : Nat → Nat → Nat → Nat
  | 0, _, place => place
  | fuel + 1, depth, place =>
    match script[place]?.map Command.action with
    | none => place
    | some .openBlock => blockEnd script fuel (depth + 1) (place + 1)
    | some .closeBlock =>
      if depth = 0 then place + 1 else blockEnd script fuel (depth - 1) (place + 1)
    | some _ => blockEnd script fuel depth (place + 1)

/-- The place that a jump leads to. -/
def target (script : Array Command) (name : Text) : Nat :=
  if name.isEmpty then script.size
  else (script.findIdx? fun c => c.action == .label name).getD script.size

/-- What a command of one letter does to the line at hand. -/
def plain (letter : Char) (s : State) : State × Option Ending :=
  let t := s.line.text
  if letter = '=' then (s.emit (Text.ofNat s.number ++ ['\n']), none)
  else if letter = 'd' then (s, some .silent)
  else if letter = 'D' then
    match Text.cutAt? '\n' t with
    | some (_, rest) => (s.withText rest, some .again)
    | none => (s, some .silent)
  else if letter = 'F' then (s.emit (s.line.file ++ ['\n']), none)
  else if letter = 'g' then (s.withText s.held, none)
  else if letter = 'G' then (s.withText (t ++ '\n' :: s.held), none)
  else if letter = 'h' then ({ s with held := t }, none)
  else if letter = 'H' then ({ s with held := s.held ++ '\n' :: t }, none)
  else if letter = 'n' then
    if s.isLast then ({ s with code? := s.code?.orElse fun _ => some 0 }, some .printing)
    else match s.autoprint.advance with
      | some next => ({ next with replaced := s.replaced }, none)
      | none => (s, some .printing)
  else if letter = 'N' then
    match s.advance with
    | some next =>
      ({ next.withText (t ++ '\n' :: next.line.text) with replaced := s.replaced }, none)
    | none => (s, some .printing)
  else if letter = 'p' then (s.printLine t, none)
  else if letter = 'P' then (s.emit (t.takeWhile (· != '\n') ++ ['\n']), none)
  else if letter = 'x' then ({ s.withText s.held with held := t }, none)
  else (s.withText [], none)

/-- Runs the script from a place; the fuel bounds the number of steps. -/
def execute (script : Array Command) : Nat → Nat → State → State × Ending
  | 0, _, s => (s, .printing)
  | fuel + 1, place, s =>
    if s.trouble?.isSome then (s, .silent)
    else match script[place]? with
    | none => (s, .printing)
    | some c =>
      let (s, applies) := c.applies place s
      if !applies then
        match c.action with
        | .openBlock => execute script fuel (blockEnd script script.size 0 (place + 1)) s
        | _ => execute script fuel (place + 1) s
      else match c.action with
        | .openBlock => execute script fuel (place + 1) s
        | .closeBlock => execute script fuel (place + 1) s
        | .label _ => execute script fuel (place + 1) s
        | .plain letter =>
          match plain letter s with
          | (s, none) => execute script fuel (place + 1) s
          | (s, some ending) => (s, ending)
        | .append t =>
          execute script fuel (place + 1) { s with appended := s.appended ++ [.text t] }
        | .insert t => execute script fuel (place + 1) (s.emit t)
        | .change t => (if Table.has s.ranges place then s else s.emit t, .silent)
        | .jump letter name =>
          if letter = 'b' || (letter == 't') == s.replaced then
            execute script fuel (target script name)
              (if letter = 't' then { s with replaced := false } else s)
          else execute script fuel (place + 1) { s with replaced := false }
        | .quit prints code =>
          ({ s with code? := some code }, if prints then .printing else .silent)
        | .list width =>
          execute script fuel (place + 1) (s.emit (listing (width.getD s.width) s.line.text))
        | .readFile name =>
          execute script fuel (place + 1) { s with appended := s.appended ++ [.file name] }
        | .writeFile name => execute script fuel (place + 1) (s.writeTo name s.line.text)
        | .exchange pairs =>
          let change := fun (c : Char) => (Table.get? pairs c).getD c
          execute script fuel (place + 1) (s.withText (s.line.text.map change))
        | .substitute u => execute script fuel (place + 1) (u.run s)

/-- Bound on the steps for one line. -/
def stepFuel : Nat := 10000000

/-- Runs the script over the lines that are left; with `again` the line at hand comes first. -/
def cycles (script : Array Command) : Nat → Bool → State → State
  | 0, _, s => s
  | fuel + 1, again, s =>
    match if again then some s else s.advance with
    | none => s
    | some s =>
      let (s, ending) := execute script stepFuel 0 s
      let s := if ending = .printing then s.autoprint else s
      let s := s.flush
      if s.trouble?.isSome || s.code?.isSome then s
      else cycles script fuel (ending = .again) s

/-! ## The program -/

/-- The lines of a file. -/
def linesOf (ending : Char) (file : Text) (bytes : Bytes) : List Line :=
  let pieces := Text.splitAtEach ending (Program.bytesAsText bytes)
  let last := pieces.getLastD []
  (pieces.dropLast.map fun t => ⟨file, t, true⟩) ++
    (if last.isEmpty then [] else [⟨file, last, false⟩])

/-- A source of a script: an argument or a file. -/
structure Source where
  isFile : Bool
  name : Text
  text : Text

/-- Where in the sources a script was left, for a report. -/
def placeIn : Nat → List Source → Nat → Text
  | expressions, source :: sources, read =>
    let expressions := if source.isFile then expressions else expressions + 1
    if read ≤ source.text.length ∨ sources.isEmpty then
      if source.isFile then
        "file " ++ source.name ++ " line " ++
          Text.ofNat ((source.text.take read).count '\n' + 1) ++ ": "
      else
        "-e expression #" ++ Text.ofNat expressions ++ ", char " ++ Text.ofNat read ++ ": "
    else placeIn expressions sources (read - source.text.length - 1)
  | _, [], _ => []

/-- A report about a script. -/
def report (sources : List Source) (length : Nat) (trouble : Trouble) : Text :=
  match trouble.left with
  | .unknown => trouble.message
  | .everything => placeIn 0 (sources.map fun s => { s with text := [] }) 0 ++ trouble.message
  | .characters n => placeIn 0 sources (length - n) ++ trouble.message

def forms : List Program.OptionForm :=
  [⟨'n', false, "quiet"⟩, ⟨'n', false, "silent"⟩, ⟨'e', true, "expression"⟩, ⟨'f', true, "file"⟩,
    ⟨'E', false, "regexp-extended"⟩, { letter := 'r' }, ⟨'i', false, "in-place"⟩,
    ⟨'l', true, "line-length"⟩, ⟨'s', false, "separate"⟩, ⟨'u', false, "unbuffered"⟩,
    ⟨'z', false, "null-data"⟩, ⟨'b', false, "binary"⟩, ⟨'P', false, "posix"⟩,
    ⟨'S', false, "sandbox"⟩]

/-- The sources that options name. -/
def sourcesOf (p : Process) (options : List (Char × Text)) : Except Text (List Source) :=
  (options.filter fun o => o.1 == 'e' || o.1 == 'f').mapM fun (letter, value) =>
    let text := fun (t : Text) => Program.bytesAsText (Utf8.encode t)
    if letter = 'e' then .ok ⟨false, [], text value⟩
    else if Program.isInput value then .ok ⟨true, "-", Program.bytesAsText p.input⟩
    else match p.disk.read value with
      | .ok bytes =>
        let t := Program.bytesAsText bytes
        .ok ⟨true, value, (Text.before? "\n" t).getD t⟩
      | .error .isDirectory => .error ("couldn't read " ++ value ++ ": Is a directory")
      | .error fault => .error ("couldn't open file " ++ value ++ ": " ++ fault.reason)

/-- Files that the script prints to, which are there from the start. -/
def writtenFiles (script : List Command) : List Text :=
  (script.filterMap fun c => match c.action with
    | .writeFile name => some name
    | .substitute u => u.file?
    | _ => none).filter fun name => name != ("/dev/stdout" : Text)

/-- Whether a list of options asks for no output but what the script prints. -/
def isQuiet (options : List (Char × Text)) (sources : List Source) : Bool :=
  options.any (fun o => o.1 == 'n') ||
    (sources.head?.any fun source => (Text.splitAtEach '\n' source.text).head? == some ['#', 'n'])

/-- Edits what was read, all in one or each file apart, and writes files in their place if asked. -/
def edit (script : Array Command) (apart inPlace : Bool) (readings : List Program.Reading)
    (s : State) : State :=
  let linesOfReading := fun (r : Program.Reading) => linesOf s.ending r.name r.bytes
  let bound := (readings.map fun r => r.bytes.length).foldl (· + ·) 1
  if apart then
    readings.foldl (fun (s : State) r =>
      if s.code?.isSome || s.trouble?.isSome then s
      else
        let before := s.output
        let s := { s with rest := linesOfReading r, number := 0 }
        let s := cycles script (2 * bound + 2) false
          (if inPlace then { s with output := {} } else s)
        if !inPlace then s
        else
          let left := s.rest.flatMap fun line =>
            line.text ++ (if line.ended then [s.ending] else [])
          let bytes := Program.ascii (s.output.text ++ left)
          match s.disk.write r.name bytes with
          | .ok disk => { s with disk, output := before }
          | .error _ => { s with output := before }) s
  else cycles script (2 * bound + 2) false { s with rest := readings.flatMap linesOfReading }

/-- The editor: edits the files that are named, or the input, by a script. -/
def sed : Program := fun p =>
  match Program.parseArguments false forms p.arguments with
  | .error message => p.complain 1 message
  | .ok parsed =>
    let given := parsed.options.any fun o => o.1 == 'e' || o.1 == 'f'
    match given, parsed.operands with
    | false, [] => p.exitWith 1
    | _, operands =>
      let options := if given then parsed.options
        else parsed.options ++ [('e', operands.headD [])]
      let names := if given then operands else operands.drop 1
      match sourcesOf p options with
      | .error message => p.complain 4 message
      | .ok sources =>
        let text := Text.joinWith "\n" (sources.map Source.text)
        match read (parsed.has 'E' || parsed.has 'r') text with
        | .error trouble =>
          p.complain (if trouble.left = .unknown then 4 else 1) (report sources text.length trouble)
        | .ok script =>
          let names := if names.isEmpty then [("-" : Text)] else names
          let (all, unread) := Program.readNames p.disk 0 names p.input
          let readings := all.takeWhile fun r => match r.content with
            | .error fault => fault != .isDirectory || parsed.has 'i'
            | .ok _ => true
          let broken? := (all.drop readings.length).head?
          let s : State := {
            disk := p.disk, quiet := isQuiet parsed.options sources
            ending := if parsed.has 'z' then '\x00' else '\n'
            width := ((parsed.value? 'l').bind Program.number?).getD 70
            files := (writtenFiles script).map fun name => (name, {}) }
          let s := edit script.toArray (parsed.has 's' || parsed.has 'i') (parsed.has 'i')
            (readings.filter fun r => !r.failed) s
          let disk := s.files.foldl (fun (disk : Disk) (name, o) =>
            match disk.write name (Program.ascii o.text) with
            | .ok disk => disk
            | .error _ => disk) s.disk
          let complaint : Program.Complaint := fun name fault =>
            if fault = .isDirectory then "couldn't edit " ++ name ++ ": not a regular file"
            else "can't read " ++ name ++ ": " ++ fault.reason
          let faults := Program.complaints p.name complaint readings
          let failed := if readings.any Program.Reading.failed then
              if parsed.has 'i' then 4 else 2
            else 0
          let (code, more) := match s.trouble?, broken? with
            | some message, _ =>
              (1, p.name ++ ": " ++ placeIn 0 [⟨false, [], []⟩] 0 ++ message ++ ['\n'])
            | none, some r => (4, p.name ++ ": read error on " ++ r.name ++ ": Is a directory\n")
            | none, none => ((s.code?.filter (· != 0)).getD failed, ([] : Text))
          ⟨.code code, Program.ascii s.output.text, faults ++ Utf8.encode more, unread, disk⟩

end StyleBatch.Editor
