import StyleBatch.Program.Reading

/-!
# Programs that work on lines

`uniq`, `cut`, `nl`, `paste`, `fold`, `tee` and `seq`.
-/

namespace StyleBatch.Program

/-- Lines of bytes without their endings. -/
def bareLines (bytes : Bytes) : List Bytes :=
  (Bytes.lines bytes).map fun line => (Bytes.cutEnding line).1

/-- Lines with an ending behind each. -/
def withEndings (lines : List Bytes) : Bytes :=
  lines.flatMap fun line => line ++ [Bytes.lineFeed]

/-! ## Repeated lines -/

/-- Lines that follow each other and are the same to `same`, as the first of them and their
number. -/
def runs (same : Bytes → Bytes → Bool) : List Bytes → List (Bytes × Nat)
  | [] => []
  | line :: rest =>
    match runs same rest with
    | (next, n) :: more =>
      if same line next then (line, n + 1) :: more else (line, 1) :: (next, n) :: more
    | [] => [(line, 1)]

def lowerBytes (t : Bytes) : Bytes :=
  t.map fun b => if 65 ≤ b && b ≤ 90 then b + 32 else b

def uniqForms : List OptionForm :=
  [⟨'c', false, "count"⟩, ⟨'d', false, "repeated"⟩, ⟨'u', false, "unique"⟩,
    ⟨'i', false, "ignore-case"⟩, ⟨'f', true, "skip-fields"⟩, ⟨'s', true, "skip-chars"⟩,
    ⟨'w', true, "check-chars"⟩]

/-- A line without so many fields and then so many bytes. -/
def skipParts (fields bytes : Nat) (line : Bytes) : Bytes :=
  let blank := fun (b : UInt8) => b == 32 || b == 9
  ((List.range fields).foldl (fun (line : Bytes) _ =>
    (line.dropWhile blank).dropWhile fun b => !blank b) line).drop bytes

/-- Gives one line for each run of equal ones. -/
def uniq : Program := withOptions 1 uniqForms fun parsed p =>
  let count := fun (letter : Char) => (parsed.value? letter).bind number?
  let key := fun (line : Bytes) =>
    let line := skipParts ((count 'f').getD 0) ((count 's').getD 0) line
    let line := match count 'w' with
      | some n => line.take n
      | none => line
    if parsed.has 'i' then lowerBytes line else line
  match parsed.operands with
  | _ :: _ :: extra :: _ => p.misuse 1 ("extra operand " ++ quoteName extra)
  | operands =>
    let shown := fun (bytes : Bytes) =>
      let all := runs (fun a b => key a == key b) (bareLines bytes)
      let all := if parsed.has 'd' then all.filter fun (_, n) => n > 1 else all
      let all := if parsed.has 'u' then all.filter fun (_, n) => n = 1 else all
      withEndings (all.map fun (line, n) =>
        if parsed.has 'c' then ascii (padded 7 n ++ [' ']) ++ line else line)
    match operands with
    | [input, output] =>
      let finished := filtering [input] shown p
      match finished.disk.write output finished.output with
      | .ok disk => { finished with output := [], disk }
      | .error fault => p.complain 1 (quoteNameIfNeeded output ++ ": " ++ fault.reason)
    | _ => filtering operands shown p

/-! ## Parts of lines -/

/-- Ranges of places, counted from one; a range without an end goes to the end of the line. -/
abbrev Places := List (Nat × Option Nat)

def Places.has (places : Places) (n : Nat) : Bool :=
  places.any fun (low, high?) => low ≤ n && high?.all fun high => n ≤ high

/-- One range as it is written. -/
def places? (t : Text) : Option (Nat × Option Nat) :=
  match Text.cutAt? '-' t with
  | none => (number? t).bind fun n => if n = 0 then none else some (n, some n)
  | some (low, high) =>
    match low.isEmpty, high.isEmpty, number? low, number? high with
    | true, true, _, _ => none
    | true, false, _, some high => some (1, some high)
    | false, true, some low, _ => if low = 0 then none else some (low, none)
    | false, false, some low, some high =>
      if low = 0 ∨ high < low then none else some (low, some high)
    | _, _, _, _ => none

/-- Pieces of bytes between separators. -/
def splitBytes (separator : UInt8) (bytes : Bytes) : List Bytes :=
  bytes.foldr (fun b (pieces : List Bytes) =>
    if b = separator then [] :: pieces
    else match pieces with
      | piece :: more => (b :: piece) :: more
      | [] => [[b]]) [[]]

def joinBytes (separator : Bytes) : List Bytes → Bytes
  | [] => []
  | [piece] => piece
  | piece :: rest => piece ++ separator ++ joinBytes separator rest

/-- The elements at the places. -/
def atPlaces {α : Type} (places : Places) (complement : Bool) (elements : List α) : List α :=
  (elements.zipIdx.filter fun (_, i) => places.has (i + 1) != complement).map Prod.fst

def cutForms : List OptionForm :=
  [⟨'b', true, "bytes"⟩, ⟨'c', true, "characters"⟩, ⟨'f', true, "fields"⟩,
    ⟨'d', true, "delimiter"⟩, ⟨'s', false, "only-delimited"⟩, { letter := 'n' },
    ⟨'C', false, "complement"⟩, ⟨'O', true, "output-delimiter"⟩]

/-- Gives bytes or fields of each line. -/
def cut : Program := withOptions 1 cutForms fun parsed p =>
  let lists := parsed.options.filter fun o => o.1 == 'b' || o.1 == 'c' || o.1 == 'f'
  let delimiter := Utf8.encode ((parsed.value? 'd').getD ['\t'])
  match lists, delimiter with
  | [], _ => p.misuse 1 "you must specify a list of bytes, characters, or fields"
  | _ :: _ :: _, _ => p.misuse 1 "only one list may be specified"
  | _, _ :: _ :: _ => p.misuse 1 "the delimiter must be a single character"
  | [(letter, list)], delimiter =>
    let delimiter := delimiter.headD 0
    let what : Text := if letter = 'f' then "field" else "byte/character position"
    match (Text.splitAtEach ',' list).mapM places? with
    | none =>
      let bad := (Text.splitAtEach ',' list).find? fun t => (places? t).isNone
      let fromOne : Text := if letter = 'f' then "fields are numbered from 1"
        else "byte/character positions are numbered from 1"
      let message := match bad with
        | some ['0'] => fromOne
        | some ['-'] => "invalid range with no endpoint: -"
        | some t =>
          if t.any fun c => !c.isDigit && c != '-' then
            "invalid " ++ what ++ (if letter = 'f' then (" value " : Text) else " ") ++
              quoteName (t.dropWhile Char.isDigit)
          else if t.contains '-' then
            if ("0-" : Text).isPrefixOf t then fromOne
            else "invalid decreasing range"
          else "invalid " ++ what ++ " value " ++ quoteName t
        | none => []
      p.misuse 1 message
    | some places =>
      filtering parsed.operands (fun bytes =>
        withEndings ((bareLines bytes).filterMap fun line =>
          if letter = 'f' then
            if !line.contains delimiter then if parsed.has 's' then none else some line
            else
              let between := match parsed.value? 'O' with
                | some t => Utf8.encode t
                | none => [delimiter]
              some (joinBytes between
                (atPlaces places (parsed.has 'C') (splitBytes delimiter line)))
          else some (atPlaces places (parsed.has 'C') line))) p

/-! ## Numbers in front -/

def nlForms : List OptionForm :=
  [⟨'b', true, "body-numbering"⟩, ⟨'w', true, "number-width"⟩, ⟨'s', true, "number-separator"⟩,
    ⟨'v', true, "starting-line-number"⟩, ⟨'i', true, "line-increment"⟩,
    ⟨'n', true, "number-format"⟩]

/-- Puts numbers in front of lines, by itself only of those that are not empty. -/
def nl : Program := withOptions 1 nlForms fun parsed =>
  let count := fun (letter : Char) (other : Nat) =>
    ((parsed.value? letter).bind number?).getD other
  let width := count 'w' 6
  let separator := (parsed.value? 's').getD ['\t']
  let style := (parsed.value? 'b').getD ['t']
  let format := (parsed.value? 'n').getD "rn"
  let shown := fun (n : Nat) =>
    let digits := Text.ofNat n
    let more := width - digits.length
    if format = "ln" then digits ++ List.replicate more ' '
    else if format = "rz" then List.replicate more '0' ++ digits
    else List.replicate more ' ' ++ digits
  filtering parsed.operands fun bytes =>
    withEndings (((bareLines bytes).foldl (fun ((n : Nat), done) line =>
      if style = "a" ∨ (style = "t" ∧ line ≠ []) then
        (n + count 'i' 1, (Utf8.encode (shown n ++ separator) ++ line) :: done)
      else (n, (ascii (List.replicate (width + separator.length) ' ') ++ line) :: done))
      (count 'v' 1, ([] : List Bytes))).2.reverse)

/-! ## Lines side by side -/

/-- Characters with their escapes put in. -/
def delimiters : Text → Text
  | '\\' :: 'n' :: rest => '\n' :: delimiters rest
  | '\\' :: 't' :: rest => '\t' :: delimiters rest
  | '\\' :: '\\' :: rest => '\\' :: delimiters rest
  | '\\' :: '0' :: rest => '\x00' :: delimiters rest
  | c :: rest => c :: delimiters rest
  | [] => []

/-- Joins pieces with separators that are taken in turn; a zero character separates nothing. -/
def joinInTurn (separators : Text) (pieces : List Bytes) : Bytes :=
  pieces.zipIdx.flatMap fun (piece, i) =>
    let separator := if i = 0 then [] else match separators[(i - 1) % separators.length]? with
      | some '\x00' => []
      | some c => Utf8.encode [c]
      | none => []
    separator ++ piece

def pasteForms : List OptionForm :=
  [⟨'d', true, "delimiters"⟩, ⟨'s', false, "serial"⟩]

/-- Deals the lines of the input in turn to the names that stand for it. -/
def shareInput (readings : List Reading) (columns : List (List Bytes)) : List (List Bytes) :=
  let share := (readings.filter fun r => isInput r.name).length
  let lines := ((readings.zip columns).find? fun (r, _) => isInput r.name).map Prod.snd
  (readings.zip columns).zipIdx.map fun ((r, column), i) =>
    if isInput r.name then
      let before := ((readings.take i).filter fun r => isInput r.name).length
      ((lines.getD []).zipIdx.filter fun (_, n) => n % share = before).map Prod.fst
    else column

/-- Puts the lines of files side by side, or those of each file in one line. -/
def paste : Program := withOptions 1 pasteForms fun parsed p =>
  let separators := delimiters ((parsed.value? 'd').getD ['\t'])
  let finished := reading plainComplaint parsed.operands (fun readings =>
    let columns := readings.map fun r => bareLines r.bytes
    let columns := if parsed.has 's' then columns else shareInput readings columns
    if parsed.has 's' then withEndings (columns.map (joinInTurn separators))
    else
      let rows := (columns.map List.length).foldl max 0
      withEndings ((List.range rows).map fun i =>
        joinInTurn separators (columns.map fun column => column.getD i []))) p
  if finished.exit = .code 0 then finished else { finished with output := [] }

/-- A line in pieces of a width, which end behind blanks if that is asked for. -/
def foldLine (width : Nat) (atBlanks : Bool) : Nat → Bytes → List Bytes
  | 0, line => [line]
  | fuel + 1, line =>
    if (line.drop width).isEmpty then [line]
    else
      let first := line.take width
      let kept := (first.reverse.dropWhile fun b => b != 32 && b != 9).length
      let n := if atBlanks ∧ kept > 0 then kept else width
      line.take n :: foldLine width atBlanks fuel (line.drop n)

def fold : Program :=
  withOptions 1 [⟨'w', true, "width"⟩, ⟨'s', false, "spaces"⟩, ⟨'b', false, "bytes"⟩]
    fun parsed p =>
      match ((parsed.value? 'w').map number?).getD (some 80) with
      | some (width + 1) =>
        filtering parsed.operands (fun bytes =>
          (Bytes.lines bytes).flatMap fun line =>
            let (line, ending) := Bytes.cutEnding line
            joinBytes [Bytes.lineFeed] (foldLine (width + 1) (parsed.has 's') line.length line)
              ++ ending) p
      | _ => p.complain 1 ("invalid number of columns: " ++
          quoteName ((parsed.value? 'w').getD []))

/-! ## Copies and counts -/

/-- Copies its input to files and to its output. -/
def tee : Program :=
  withOptions 1 [⟨'a', false, "append"⟩, ⟨'i', false, "ignore-interrupts"⟩] fun parsed p =>
    let (disk, errors) := parsed.operands.foldl (fun ((disk : Disk), errors) name =>
      let before := match parsed.has 'a', disk.read name with
        | true, .ok bytes => bytes
        | _, _ => []
      match disk.write name (before ++ p.input) with
      | .ok disk => (disk, errors)
      | .error fault =>
        (disk, errors ++ Utf8.encode (p.name ++ ": " ++ quoteNameIfNeeded name ++ ": " ++
          fault.reason ++ ['\n']))) (p.disk, ([] : Bytes))
    ⟨.code (if errors.isEmpty then 0 else 1), p.input, errors, [], disk⟩

/-- Numbers from one to another by a step; no more than `most`. -/
def numbersFrom (step last : Int) : Nat → Int → List Int
  | 0, _ => []
  | most + 1, n =>
    if (step > 0 ∧ n > last) ∨ (step < 0 ∧ n < last) ∨ step = 0 then []
    else n :: numbersFrom step last most (n + step)

/-- Writes whole numbers in a row. -/
def seq : Program := fun p =>
  let (separator, width, rest) := go p.arguments
  match rest.mapM signed? with
  | some [last] => show? separator width 1 1 last p
  | some [first, last] => show? separator width first 1 last p
  | some [_, 0, _] => p.misuse 1 ("invalid Zero increment value: " ++ quoteName (rest.getD 1 []))
  | some [first, step, last] => show? separator width first step last p
  | some [] => p.misuse 1 "missing operand"
  | some (_ :: _ :: _ :: _ :: _) => p.misuse 1 ("extra operand " ++ quoteName (rest.getD 3 []))
  | none =>
    let bad := (rest.find? fun t => (signed? t).isNone).getD []
    p.misuse 1 ("invalid floating point argument: " ++ quoteName bad)
where
  /-- The separator, whether numbers are equally wide, and the numbers. -/
  go : List Text → Text × Bool × List Text
    | ['-', 's'] :: separator :: rest => let (_, w, r) := go rest; (separator, w, r)
    | ('-' :: 's' :: separator) :: rest => let (_, w, r) := go rest; (separator, w, r)
    | ['-', 'w'] :: rest => let (s, _, r) := go rest; (s, true, r)
    | rest => (['\n'], false, rest)
  /-- Writes the numbers. -/
  show? (separator : Text) (equal : Bool) (first step last : Int) (p : Process) : Finished :=
    let bound := (last - first).natAbs + 1
    let texts := (numbersFrom step last bound first).map Text.ofInt
    let width := max (Text.ofInt first).length (Text.ofInt last).length
    let texts := if equal then texts.map fun t =>
        match t with
        | '-' :: digits => '-' :: List.replicate (width - t.length) '0' ++ digits
        | digits => List.replicate (width - t.length) '0' ++ digits
      else texts
    p.print (if texts.isEmpty then []
      else Utf8.encode (Text.joinWith separator texts ++ ['\n']))

/-- Blanks in place of tabs, from a column on. With `first` only those in front are replaced. -/
def expandFrom (width : Nat) (first : Bool) : Nat → Bool → Bytes → Bytes
  | _, _, [] => []
  | column, inFront, b :: rest =>
    if b = Bytes.lineFeed then b :: expandFrom width first 0 true rest
    else if b = 9 ∧ (inFront ∨ ¬ first) then
      let n := width - column % width
      List.replicate n 32 ++ expandFrom width first (column + n) inFront rest
    else b :: expandFrom width first (column + 1) (inFront && b == 32) rest

/-- Puts blanks in place of tabs. -/
def expand : Program :=
  withOptions 1 [⟨'t', true, "tabs"⟩, ⟨'i', false, "initial"⟩] fun parsed p =>
    match number? ((parsed.value? 't').getD "8") with
    | none =>
      p.complain 1 ("tab size contains invalid character(s): " ++
        quoteName ((parsed.value? 't').getD []))
    | some 0 => p.complain 1 "tab size cannot be 0"
    | some width => filtering parsed.operands (expandFrom width (parsed.has 'i') 0 true) p

/-- How much a pipe holds. -/
def pipeSize : Nat := 65536

/-- Prints its arguments again and again; as no reader takes all of it, it fills a pipe. -/
def yes : Program := fun p =>
  let line := Utf8.encode (Text.joinWith " " (if p.arguments.isEmpty then ["y"] else p.arguments) ++
    ['\n'])
  p.print ((List.replicate (pipeSize / line.length) line).flatten)

end StyleBatch.Program
