import StyleBatch.Program.Records.Reader
import StyleBatch.Program.Records.State

/-!
# Running scripts over records

`awk` reads records and carries out the rules whose patterns pick them. Fuel bounds the
depth of calls and the rounds of loops.
-/

namespace StyleBatch.Records

namespace Run

/-- What an assignment writes to. -/
inductive Place where
  | named (name : Text)
  | item (array key : Text)
  | field (n : Int)

def Place.read : Place → Run Value
  | .named name => lookup name
  | .item array key => Run.item array key
  | .field n => Run.field n

def Place.write (v : Value) : Place → Run Unit
  | .named name => setName name v
  | .item array key => setItem array key v
  | .field n => setField n v

/-- What catches the end of a round; the answer tells whether another one may follow. -/
def roundOf (body : Run Unit) : Run Bool :=
  tryCatch (do
    body
    return true) fun
    | .loop => return false
    | .round => return true
    | leave => throw leave

/-- What a function leaves as its value. -/
def valueOf (body : Run Unit) : Run Value :=
  tryCatch (do
    body
    return .missing) fun
    | .function v => return v
    | leave => throw leave

/-- A part of a text from a place on, at most so long; places are counted from one. -/
def part (t : Text) (first : Float) (length : Option Float) : Text :=
  let first := Decimal.truncated first
  let dropped := (first - 1).toNat
  match length with
  | none => t.drop dropped
  | some length =>
    let stop := first + Decimal.truncated length - 1
    (t.take stop.toNat).drop dropped

/-- The place of a mark in a text, counted from one; zero if it is not there. -/
def placeOf (mark t : Text) : Nat :=
  match Text.cut? mark t with
  | some (before, _) => before.length + 1
  | none => 0

/-- Remembers where a match is. -/
def matchPlace (r : Regex) (t : Text) : Run Value := do
  let (start, length) : Float × Float := match r.find? {} (Regex.Spot.first t) with
    | some (start, stop) =>
      (Float.ofNat (start.position + 1), Float.ofNat (stop.position - start.position))
    | none => (0, -1)
  setName "RSTART" (.number start)
  setName "RLENGTH" (.number length)
  return .number start

/-- Fills an array with pieces, counted from one. -/
def fill (array : Text) (pieces : List Text) : Run Value := do
  setArray array (pieces.zipIdx.map fun (piece, i) => (Text.ofNat (i + 1), .input piece))
  return .ofNat pieces.length

/-- Functions of numbers. -/
def numeric? (function : Text) : Option (Float → Float) :=
  if function = "int" then some wholePart
  else if function = "sqrt" then some Float.sqrt
  else if function = "exp" then some Float.exp
  else if function = "log" then some Float.log
  else if function = "sin" then some Float.sin
  else if function = "cos" then some Float.cos
  else none

/-- The text of a format with its values, or the trouble with it. -/
def formatOf (name t : Text) (values : List Value) (early : Text → Run Unit) : Run Text := do
  let done := formatted (← numberFormat) t values
  match done.trouble with
  | none => return done.text
  | some trouble =>
    early done.text
    failAtRecord (trouble ++ name ++ "(\"" ++ t ++ "\")")

mutual

def evaluate : Nat → Expr → Run Value
  | 0, _ => return .missing
  | fuel + 1, e => do
    match e with
    | .number x => return .number x
    | .text t => return .text t
    | .regex r => return .truth (Regex.isIn {} r ((← Run.field 0).toText (← numberFormat)))
    | .name name => lookup name
    | .item array subscripts => do Run.item array (← key fuel subscripts)
    | .field index => do Run.field (Decimal.truncated (← evaluate fuel index).toNumber)
    | .assign target value => do
      let place ← place fuel target
      let v ← evaluate fuel value
      place.write v
      return v
    | .update operator target value => do
      let place ← place fuel target
      let y := (← evaluate fuel value).toNumber
      let v := Value.number (operator.apply (← place.read).toNumber y)
      place.write v
      return v
    | .step up before target => do
      let place ← place fuel target
      let old := (← place.read).toNumber
      let new := if up then old + 1 else old - 1
      place.write (.number new)
      return .number (if before then new else old)
    | .not a => do return .truth !(← evaluate fuel a).isTrue
    | .negative a => do return .number (0 - (← evaluate fuel a).toNumber)
    | .positive a => do return .number (← evaluate fuel a).toNumber
    | .arithmetic operator a b => do
      let x := (← evaluate fuel a).toNumber
      let y := (← evaluate fuel b).toNumber
      return .number (operator.apply x y)
    | .compare comparison a b => do
      let x ← evaluate fuel a
      let y ← evaluate fuel b
      return .truth (Value.compares (← numberFormat) comparison x y)
    | .join a b => do
      let s ← text fuel a
      let t ← text fuel b
      return .text (s ++ t)
    | .match negated a b => do
      let t ← text fuel a
      let r ← regex fuel b
      return .truth (Regex.isIn {} r t != negated)
    | .both a b => do
      if (← evaluate fuel a).isTrue then return .truth (← evaluate fuel b).isTrue
      else return .truth false
    | .either a b => do
      if (← evaluate fuel a).isTrue then return .truth true
      else return .truth (← evaluate fuel b).isTrue
    | .choice condition yes no => do
      if (← evaluate fuel condition).isTrue then evaluate fuel yes else evaluate fuel no
    | .contains name subscripts => do
      let key ← key fuel subscripts
      return .truth (Table.has (← array name) key)
    | .call function arguments => call fuel function arguments
    | .builtin function arguments => builtin fuel function arguments
    | .read origin source target => read fuel origin source target

def text : Nat → Expr → Run Text
  | 0, _ => return []
  | fuel + 1, e => do return (← evaluate fuel e).toText (← numberFormat)

/-- An expression that is matched: as it stands, or as a text writes it. -/
def regex : Nat → Expr → Run Regex
  | 0, _ => return .empty
  | fuel + 1, e => do
    match e with
    | .regex r => return r
    | e =>
      match readRegex (← text fuel e) with
      | .ok r => return r
      | .error message => failAtRecord message

def texts : Nat → List Expr → Run (List Text)
  | 0, _ => return []
  | _ + 1, [] => return []
  | fuel + 1, e :: rest => do
    let t ← text fuel e
    return t :: (← texts fuel rest)

def values : Nat → List Expr → Run (List Value)
  | 0, _ => return []
  | _ + 1, [] => return []
  | fuel + 1, e :: rest => do
    let v ← evaluate fuel e
    return v :: (← values fuel rest)

/-- The key that subscripts make. -/
def key : Nat → List Expr → Run Text
  | 0, _ => return []
  | fuel + 1, subscripts => do
    return Text.joinWith (← textOf "SUBSEP") (← texts fuel subscripts)

def place : Nat → Expr → Run Place
  | 0, _ => return .field 0
  | fuel + 1, e => do
    match e with
    | .name name => return .named name
    | .item array subscripts => do return .item array (← key fuel subscripts)
    | .field index => do
      return .field (Decimal.truncated (← evaluate fuel index).toNumber)
    | _ => return .field 0

/-- The variables that a call gives to a function, missing ones at the end. -/
def slots : Nat → List Text → List Expr → Run (Table Text Slot)
  | 0, _, _ => return []
  | _ + 1, [], _ => return []
  | fuel + 1, name :: names, arguments => do
    let slot ← match arguments with
      | .name given :: _ => do pure (Slot.mk (← lookup given) (← arrayKey given))
      | e :: _ => do newSlot (← evaluate fuel e)
      | [] => newSlot .missing
    return (name, slot) :: (← slots fuel names arguments.tail)

def call : Nat → Text → List Expr → Run Value
  | 0, _, _ => return .missing
  | fuel + 1, name, arguments => do
    match Table.get? (← get).script.functions name with
    | none => fail ("function " ++ name ++ " never defined")
    | some function =>
      let slots ← slots fuel function.parameters arguments
      let outer := (← get).frame
      modify fun s => { s with frame := slots }
      let v ← valueOf (carryOut fuel function.body)
      modify fun s => { s with frame := outer }
      return v

/-- Replaces matches in a target. -/
def substitute : Nat → Bool → List Expr → Run Value
  | 0, _, _ => return .missing
  | fuel + 1, all, arguments => do
    let r ← regex fuel (arguments.getD 0 (.text []))
    let new ← text fuel (arguments.getD 1 (.text []))
    let place ← place fuel (arguments.getD 2 (.field (.number 0)))
    let t := (← place.read).toText (← numberFormat)
    let (t, n) := replaceMatches r new all t
    if n != 0 then place.write (.text t)
    return .ofNat n

def builtin : Nat → Text → List Expr → Run Value
  | 0, _, _ => return .missing
  | fuel + 1, function, arguments => do
    let argument := fun (i : Nat) => arguments.getD i (.text [])
    match numeric? function with
    | some f => return .number (f (← evaluate fuel (argument 0)).toNumber)
    | none =>
      if function = "length" then
        match arguments with
        | [] => return .ofNat ((← Run.field 0).toText (← numberFormat)).length
        | .name name :: _ => do
          let items ← array name
          if items.isEmpty then return .ofNat (← text fuel (.name name)).length
          else return .ofNat items.length
        | e :: _ => return .ofNat (← text fuel e).length
      else if function = "substr" then
        let t ← text fuel (argument 0)
        let first := (← evaluate fuel (argument 1)).toNumber
        let length ← match arguments.drop 2 with
          | e :: _ => do pure (some (← evaluate fuel e).toNumber)
          | [] => pure none
        return .text (part t first length)
      else if function = "index" then
        let t ← text fuel (argument 0)
        return .ofNat (placeOf (← text fuel (argument 1)) t)
      else if function = "split" then
        let t ← text fuel (argument 0)
        let pieces ← match arguments.drop 2 with
          | .regex r :: _ => pure ((Separator.regex r).pieces false t)
          | e :: _ => do split (← text fuel e) t
          | [] => do split (← textOf "FS") t
        match argument 1 with
        | .name array => fill array pieces
        | _ => return .ofNat pieces.length
      else if function = "sub" then substitute fuel false arguments
      else if function = "gsub" then substitute fuel true arguments
      else if function = "match" then
        let t ← text fuel (argument 0)
        matchPlace (← regex fuel (argument 1)) t
      else if function = "sprintf" then
        let all ← values fuel arguments
        let t := (all.headD .missing).toText (← numberFormat)
        return .text (← formatOf "sprintf" t all.tail fun _ => pure ())
      else if function = "toupper" then
        return .text ((← text fuel (argument 0)).map Char.toUpper)
      else if function = "tolower" then return .text (Text.lowerAscii (← text fuel (argument 0)))
      else if function = "atan2" then
        let y := (← evaluate fuel (argument 0)).toNumber
        return .number (Float.atan2 y (← evaluate fuel (argument 1)).toNumber)
      else if function = "system" then
        let t ← text fuel (argument 0)
        flush
        let (status, bytes) ← command t none
        modify fun s => { s with output := bytes :: s.output }
        return .ofNat status
      else if function = "close" then
        match ← close (← text fuel (argument 0)) with
        | some status => return .ofNat status
        | none => return .number (-1)
      else if function = "fflush" then
        flush
        return .number 0
      else return .number 0

/-- Reads a record into a target; the value tells whether there was one. -/
def read : Nat → Origin → Expr → Expr → Run Value
  | 0, _, _, _ => return .number (-1)
  | fuel + 1, origin, source, target => do
    let found ← match origin with
      | .input => do pure (some (← nextRecord 10000))
      | .file => do
        let name ← text fuel source
        recordFrom name do
          let s ← get
          if Program.isInput name then return some (Program.bytesAsText s.input)
          else match s.disk.read (nameOf name) with
            | .ok bytes => return some (Program.bytesAsText bytes)
            | .error _ => return none
      | .command => do
        let t ← text fuel source
        recordFrom t do
          flush
          let (_, bytes) ← command t none
          return some (Program.bytesAsText bytes)
    match found with
    | none => return .number (-1)
    | some none => return .number 0
    | some (some record) =>
      if origin == .command then setName "NR" (.number ((← lookup "NR").toNumber + 1))
      (← place fuel target).write (.input record)
      return .number 1

/-- Prints to a target. -/
def printTo : Nat → Target → Text → Run Unit
  | 0, _, _ => return
  | fuel + 1, target, t => do
    let bytes := Program.ascii t
    match target with
    | .output => emit bytes
    | .file append name => do emitTo append (← text fuel name) bytes
    | .command e => do emitFor (← text fuel e) bytes

def carryOut : Nat → Statement → Run Unit
  | 0, _ => return
  | fuel + 1, statement => do
    match statement with
    | .nothing => return
    | .expr e => do
      let _ ← evaluate fuel e
    | .print items target => do
      let format ← textOf "OFMT"
      let all ← match items with
        | [] => do pure [← Run.field 0]
        | items => values fuel items
      let t := Text.joinWith (← textOf "OFS") (all.map (Value.toText format))
      printTo fuel target (t ++ (← textOf "ORS"))
    | .format items target => do
      let all ← values fuel items
      let t := (all.headD .missing).toText (← numberFormat)
      printTo fuel target (← formatOf "printf" t all.tail (printTo fuel target))
    | .sequence first second => do
      carryOut fuel first
      carryOut fuel second
    | .choice condition yes no => do
      if (← evaluate fuel condition).isTrue then carryOut fuel yes else carryOut fuel no
    | .loop testsFirst condition body step => do
      if testsFirst then
        if (← evaluate fuel condition).isTrue then rounds fuel condition body step
      else rounds fuel condition body step
    | .each name array body => do
      eachKey fuel name body ((← Run.array array).map Prod.fst)
    | .leaveLoop => throw .loop
    | .nextRound => throw .round
    | .nextRecord => throw .record
    | .exit code => do
      match code with
      | some e =>
        let n := Decimal.truncated (← evaluate fuel e).toNumber
        modify fun s => { s with status := (n % 256).toNat }
      | none => pure ()
      throw .exit
    | .leave value => do
      match value with
      | some e => throw (.function (← evaluate fuel e))
      | none => throw (.function .missing)
    | .delete name subscripts => do
      match subscripts with
      | [] => setArray name []
      | subscripts =>
        let key ← key fuel subscripts
        setArray name ((← Run.array name).filter fun i => i.1 != key)

/-- Rounds of a loop, the first of which is not tested any more. -/
def rounds : Nat → Expr → Statement → Statement → Run Unit
  | 0, _, _, _ => return
  | fuel + 1, condition, body, step => do
    if ← roundOf (carryOut fuel body) then
      carryOut fuel step
      if (← evaluate fuel condition).isTrue then rounds fuel condition body step

/-- A round for each key. -/
def eachKey : Nat → Text → Statement → List Text → Run Unit
  | 0, _, _, _ => return
  | _ + 1, _, _, [] => return
  | fuel + 1, name, body, key :: rest => do
    setName name (.input key)
    if ← roundOf (carryOut fuel body) then eachKey fuel name body rest

end

/-! ## Rules -/

/-- Bound on the depth of calls and the rounds of loops. -/
def runFuel : Nat := 100000000

/-- Whether a rule with a number applies to the current record. -/
def applies (n : Nat) : Pattern → Run Bool
  | .begin => return false
  | .finish => return false
  | .always => return true
  | .when e => do return (← evaluate runFuel e).isTrue
  | .range first last => do
    let isOpen := (← get).ranges.contains n
    if isOpen || (← evaluate runFuel first).isTrue then
      let ended := (← evaluate runFuel last).isTrue
      modify fun s =>
        let others := s.ranges.filter (· != n)
        { s with ranges := if ended then others else n :: others }
      return true
    else return false

/-- Carries out the rules for the current record. -/
def applyRules (rules : List (Rule × Nat)) : Run Unit :=
  tryCatch (rules.forM fun (rule, n) => do
    if ← applies n rule.pattern then carryOut runFuel rule.body) fun
    | .record => return
    | leave => throw leave

/-- Carries out the rules for the records that are left. -/
def allRecords (rules : List (Rule × Nat)) : Nat → Run Unit
  | 0 => return
  | fuel + 1 => do
    match ← nextRecord 10000 with
    | some record =>
      setRecord record
      applyRules rules
      allRecords rules fuel
    | none => return

/-- The statements of the rules with a pattern. -/
def bodies (rules : List Rule) (chosen : Pattern → Bool) : List Statement :=
  (rules.filter fun rule => chosen rule.pattern).map Rule.body

/-- Carries out a part of a script; nothing follows where it fails. -/
def untilExit (run : Run Unit) : Run Unit :=
  tryCatch run fun
    | .fatal message => throw (.fatal message)
    | _ => return

/-- Carries out all of a script. -/
def whole : Run Unit := do
  let rules := (← get).script.rules
  let isEnd := fun (p : Pattern) => p matches .finish
  let isBegin := fun (p : Pattern) => p matches .begin
  let main := rules.zipIdx.filter fun (rule, _) => !isEnd rule.pattern && !isBegin rule.pattern
  untilExit do
    (bodies rules isBegin).forM (carryOut runFuel)
    if !main.isEmpty || !(bodies rules isEnd).isEmpty then allRecords main runFuel
  untilExit ((bodies rules isEnd).forM (carryOut runFuel))

end Run

/-! ## The program -/

/-- What arguments ask for. -/
structure Invoked where
  separator : Option Text := none
  assignments : List Text := []
  files : List Text := []
  rest : List Text := []

/-- Reads the arguments; the trouble is an option without its value or an unknown one. -/
def readInvocation (found : Invoked) : List Text → Except Text Invoked
  | [] => .ok found
  | ['-', '-'] :: rest => .ok { found with rest }
  | ['-', 'F'] :: value :: rest => readInvocation { found with separator := some value } rest
  | ['-', 'v'] :: value :: rest =>
    readInvocation { found with assignments := found.assignments ++ [value] } rest
  | ['-', 'f'] :: value :: rest =>
    readInvocation { found with files := found.files ++ [value] } rest
  | ('-' :: c :: letters) :: rest =>
    if letters = [] ∧ ("Fvf" : Text).contains c then
      .error ("option -" ++ c :: " lacks argument".toList)
    else if c = 'F' then readInvocation { found with separator := some letters } rest
    else if c = 'v' then
      readInvocation { found with assignments := found.assignments ++ [letters] } rest
    else if c = 'f' then readInvocation { found with files := found.files ++ [letters] } rest
    else .error ("not an option: -" ++ c :: letters)
  | rest => .ok { found with rest }

/-- The script that arguments give, and the operands behind it. -/
def scriptText (disk : Disk) (found : Invoked) : Except Text (Text × List Text) :=
  match found.files, found.rest with
  | [], text :: operands => .ok (textOfName text, operands)
  | [], [] => .error "no program"
  | files, operands => do
    let parts ← files.mapM fun file => match disk.read file with
      | .ok bytes => .ok (Program.bytesAsText bytes ++ ['\n'])
      | .error fault =>
        Except.error (("cannot open \"" : Text) ++ file ++ "\" (" ++ fault.reason ++ ")")
    return (parts.flatten, operands)

/-- The arrays that a script finds. -/
def givenArrays (p : Process) (operands : List Text) : Table Text (Table Text Value) :=
  let all := p.name :: operands
  [("ARGV", all.zipIdx.map fun (t, i) => (Text.ofNat i, .input (textOfName t))),
    ("ENVIRON", p.bindings.map fun (name, value) =>
      (textOfName name, .input (textOfName value)))]

/-- The variables that a script finds. -/
def givenValues (operands : List Text) : Table Text Value :=
  [("NR", .number 0), ("FNR", .number 0), ("FS", .text " "), ("OFS", .text " "),
    ("ORS", .text "\n"), ("RS", .text "\n"), ("SUBSEP", .text "\x1c"), ("CONVFMT", .text "%.6g"),
    ("OFMT", .text "%.6g"), ("FILENAME", .text []), ("RSTART", .number 0),
    ("RLENGTH", .number (-1)), ("ARGC", .ofNat (operands.length + 1))]

/-- Runs a script over the records of the files that operands name, or of the input. -/
def awk (shell : Program) : Program := fun p =>
  let trouble := fun (message : Text) => p.complain 2 message
  let read := do
    let found ← readInvocation {} p.arguments
    let (text, operands) ← scriptText p.disk found
    return (found, text, operands)
  match read with
  | .error message => trouble message
  | .ok (found, text, operands) =>
    match Script.read text with
    | .error troubles =>
      { p.exitWith 2 with
        errors := troubles.flatMap fun t =>
          (p.complain 2 ("line " ++ Text.ofNat t.line ++ ": " ++ t.message)).errors }
    | .ok script =>
      let s : State := {
        script, shell, name := p.name, bindings := p.bindings, disk := p.disk, input := p.input
        values := givenValues operands, arrays := givenArrays p operands }
      let whole : Run Unit := do
        match found.separator with
        | some t => Run.setName "FS" (.text (unescaped (textOfName t)))
        | none => pure ()
        for assignment in found.assignments do
          if !(← Run.assignOperand (textOfName assignment)) then
            Run.fail ("improper assignment: -v " ++ textOfName assignment)
        Run.whole
      let (result, s) := whole.run.run s
      let (code, complaint) := match result with
        | .error (.fatal message) =>
          (2, Program.ascii (textOfName p.name ++ ": " ++ message ++ ['\n']))
        | _ => (s.status, [])
      let (_, s) := Run.closeAll.run.run { s with errors := complaint :: s.errors }
      ⟨.code code, s.output.reverse.flatten, s.errors.reverse.flatten, s.input, s.disk⟩

end StyleBatch.Records
