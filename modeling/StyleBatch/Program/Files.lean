import StyleBatch.Program.Reading

/-!
# Programs that show files

`cat`, `tac`, `rev`, `head`, `tail` and `wc`.
-/

namespace StyleBatch.Program

/-! ## Copying -/

/-- Lines with their numbers in front, given as they were read and as they are shown; lines
without text may be passed over. -/
def numberLines (blanksToo : Bool) (lines : List (Bytes × Bytes)) : List Bytes :=
  (lines.foldl (fun (n, done) (line, shown) =>
    if blanksToo || line != [Bytes.lineFeed] then
      (n + 1, (ascii (padded 6 n ++ ['\t']) ++ shown) :: done)
    else (n, shown :: done)) (1, [])).2.reverse

/-- Leaves one of several lines without text that follow each other. -/
def squeezeBlankLines : List Bytes → List Bytes
  | first :: second :: rest =>
    if first = [Bytes.lineFeed] ∧ second = [Bytes.lineFeed] then squeezeBlankLines (second :: rest)
    else first :: squeezeBlankLines (second :: rest)
  | lines => lines

/-- A byte that is not printed as it is, with `^` for control bytes and `M-` for high ones. -/
def visibleByte (tabs : Bool) (b : UInt8) : Bytes :=
  let low := fun (b : UInt8) =>
    if b = 127 then ascii "^?" else if b < 32 then [94, b + 64] else [b]
  if b = 10 then [b]
  else if b = 9 then if tabs then ascii "^I" else [b]
  else if b < 128 then low b
  else ascii "M-" ++ low (b - 128)

def catForms : List OptionForm :=
  [⟨'n', false, "number"⟩, ⟨'b', false, "number-nonblank"⟩, ⟨'s', false, "squeeze-blank"⟩,
    ⟨'E', false, "show-ends"⟩, ⟨'T', false, "show-tabs"⟩, ⟨'v', false, "show-nonprinting"⟩,
    ⟨'A', false, "show-all"⟩, { letter := 'e' }, { letter := 't' }, { letter := 'u' }]

/-- Copies what it reads, with numbers, marks at the ends of lines and visible bytes. -/
def cat : Program := withOptions 1 catForms fun parsed =>
  filtering parsed.operands fun bytes =>
    let has := fun (letters : Text) => letters.any parsed.has
    if parsed.options.isEmpty then bytes
    else
      let lines := Bytes.lines bytes
      let lines := if has "s" then squeezeBlankLines lines else lines
      let shown := lines.map fun line =>
        let (text, ending) := Bytes.cutEnding line
        let text := if has "vAet" then text.flatMap (visibleByte (has "TAt"))
          else if has "T" then text.flatMap fun b => if b = 9 then ascii "^I" else [b]
          else text
        (line, text ++ (if has "EAe" && !ending.isEmpty then [36] else []) ++ ending)
      if has "nb" then (numberLines (!has "b") shown).flatten else shown.flatMap Prod.snd

/-- Gives the lines of each file in turned order. A last line without an ending gets none. -/
def tac : Program := withOptions 1 [] fun parsed =>
  let complaint := openComplaint (fun name => "failed to open " ++ quoteName name ++ " for reading")
    fun name => quoteNameIfNeeded name ++ ": read error"
  reading complaint parsed.operands fun readings =>
    readings.flatMap fun r => (Bytes.lines r.bytes).reverse.flatten

/-- The text with every line turned around. -/
def reversed (bytes : Bytes) : Bytes :=
  (Bytes.lines bytes).flatMap fun line =>
    let (text, ending) := Bytes.cutEnding line
    Utf8.encode (Utf8.decodeLossy text).reverse ++ ending

def rev : Program := withOptions 1 [] fun parsed =>
  let complaint := openComplaint (fun name => "cannot open " ++ name) fun name => name
  reading complaint parsed.operands fun readings => readings.flatMap fun r => reversed r.bytes

/-! ## Parts -/

/-- From where a count is taken. -/
inductive Counted where
  /-- So many from the near end. -/
  | near
  /-- All but so many at the far end. -/
  | allBut
deriving DecidableEq, Repr

/-- A part of what is read, counted in bytes or in lines. -/
structure Part where
  bytes : Bool := false
  counted : Counted := .near
  count : Nat := 10

/-- A count with the letter of a factor behind it. -/
def factored? (t : Text) : Option Nat :=
  let digits := t.takeWhile Char.isDigit
  match number? digits, t.drop digits.length with
  | some n, [] => some n
  | some n, ['b'] => some (n * 512)
  | some n, ['k'] => some (n * 1024)
  | some n, ['K'] => some (n * 1024)
  | some n, ['k', 'B'] => some (n * 1000)
  | some n, ['m'] => some (n * 1048576)
  | some n, ['M'] => some (n * 1048576)
  | _, _ => none

/-- The part that a value asks for; a sign in front takes the far end. -/
def part? (far near : Char) (bytes : Bool) (value : Text) : Option Part :=
  match value with
  | c :: rest =>
    if c = far then (factored? rest).map fun count => ⟨bytes, .allBut, count⟩
    else if c = near then (factored? rest).map fun count => ⟨bytes, .near, count⟩
    else (factored? value).map fun count => ⟨bytes, .near, count⟩
  | [] => none

def Part.first (part : Part) (bytes : Bytes) : Bytes :=
  let keep := fun (size : Nat) => if part.counted = .near then part.count else size - part.count
  if part.bytes then bytes.take (keep bytes.length)
  else
    let lines := Bytes.lines bytes
    (lines.take (keep lines.length)).flatten

/-- The end of the bytes; counted from the far end, the count starts with one. -/
def Part.last (part : Part) (bytes : Bytes) : Bytes :=
  let skip := fun (size : Nat) =>
    if part.counted = .near then size - part.count else part.count - 1
  if part.bytes then bytes.drop (skip bytes.length)
  else
    let lines := Bytes.lines bytes
    (lines.drop (skip lines.length)).flatten

/-- Options that may be written as a bare number. -/
def withBareNumber : List Text → List Text
  | ('-' :: c :: rest) :: more =>
    if c.isDigit && (rest.all Char.isDigit) then ("-n" ++ (c :: rest)) :: more
    else ('-' :: c :: rest) :: more
  | arguments => arguments

def partForms : List OptionForm :=
  [⟨'n', true, "lines"⟩, ⟨'c', true, "bytes"⟩, ⟨'q', false, "quiet"⟩, ⟨'v', false, "verbose"⟩]

/-- A heading with a name, apart from what stands before it. -/
def heading (index : Nat) (name : Text) : Bytes :=
  let name : Text := if isInput name then "standard input" else name
  Utf8.encode ((if index = 0 then [] else ['\n']) ++ "==> " ++ name ++ " <==\n")

/-- Gives a part of each name, under a heading where there are several. -/
def partly (far near : Char) (take : Part → Bytes → Bytes) : Program := fun p =>
  match parseArguments false partForms (withBareNumber p.arguments) with
  | .error message => p.misuse 1 message
  | .ok parsed =>
    let asked := (parsed.options.reverse.find? fun o => o.1 == 'n' || o.1 == 'c')
    let part? := match asked with
      | some (letter, value) => part? far near (letter == 'c') value
      | none => some {}
    match part?, asked with
    | none, some (letter, value) =>
      let unit : Text := if letter == 'c' then "bytes" else "lines"
      p.complain 1 ("invalid number of " ++ unit ++ ": " ++ quoteName value)
    | none, none => p.exitWith 1
    | some part, _ =>
      let headed := !parsed.has 'q' && (parsed.has 'v' || parsed.operands.length > 1)
      let complaint := openComplaint
        (fun name => "cannot open " ++ quoteName name ++ " for reading")
        fun name => "error reading " ++ quoteName name
      let bound := if part.bytes then part.count else 0
      readingAtMost bound 1 complaint parsed.operands (fun readings =>
        let opened := readings.filter fun r => match r.content with
          | .error fault => fault = .isDirectory
          | .ok _ => true
        opened.zipIdx.flatMap fun (r, i) =>
          (if headed then heading i r.name else []) ++ take part r.bytes) p

def head : Program :=
  partly '-' '\x00' Part.first

def tail : Program :=
  partly '+' '-' Part.last

/-! ## Counting -/

def isSpace (b : UInt8) : Bool :=
  b == 32 || (9 ≤ b && b ≤ 13)

/-- The number of runs without spaces. -/
def countWords (bytes : Bytes) : Nat :=
  (bytes.foldl (fun (n, inside) b =>
    if isSpace b then (n, false) else (if inside then n else n + 1, true)) (0, false)).1

/-- Columns that a line takes, with tabs that go to the next multiple of eight. -/
def columnsOf (line : Text) : Nat :=
  line.foldl (fun n c => if c = '\t' then (n / 8 + 1) * 8 else n + 1) 0

/-- The counts that the options ask for: lines, words, characters, bytes, the longest line. -/
def countsOf (options : Text) (bytes : Bytes) : List Nat :=
  let chosen := if options.isEmpty then ['l', 'w', 'c'] else options
  (if chosen.contains 'l' then [bytes.count Bytes.lineFeed] else []) ++
  (if chosen.contains 'w' then [countWords bytes] else []) ++
  (if chosen.contains 'm' then [(Utf8.decodeLossy bytes).length] else []) ++
  (if chosen.contains 'c' then [bytes.length] else []) ++
  (if chosen.contains 'L' then
    [((Bytes.lines bytes).map fun line =>
      columnsOf (Utf8.decodeLossy (Bytes.cutEnding line).1)).foldl max 0] else [])

/-- Sums of counts, but the longest line of all. -/
def totalCounts (options : Text) (all : List (List Nat)) : List Nat :=
  let columns := (countsOf options []).length
  (List.range columns).map fun i =>
    let column := all.map fun counts => counts.getD i 0
    if options.contains 'L' ∧ i + 1 = columns then column.foldl max 0 else column.foldl (· + ·) 0

/-- A line of counts. -/
def countLine (width : Nat) (counts : List Nat) (name : Text) : Bytes :=
  let label := if name = [] then [] else ' ' :: name
  Utf8.encode (Text.joinWith " " (counts.map (padded width)) ++ label ++ ['\n'])

/-- Whether a name led to something that can be counted, if only as nothing. -/
def Reading.counts (r : Reading) : Bool :=
  match r.content with
  | .ok _ => true
  | .error fault => fault = .isDirectory

def wcForms : List OptionForm :=
  [⟨'l', false, "lines"⟩, ⟨'w', false, "words"⟩, ⟨'c', false, "bytes"⟩, ⟨'m', false, "chars"⟩,
    ⟨'L', false, "max-line-length"⟩]

/-- Counts in what it reads. Columns are as wide as the size of the files needs, and 7
wide where the size is not known; a single count has its own width. -/
def wc : Program := withOptions 1 wcForms fun parsed =>
  let options := parsed.options.map Prod.fst
  reading plainComplaint parsed.operands fun readings =>
    let columns := (countsOf options []).length
    let sized := readings.filter fun r => !(isInput r.name || r.failed)
    let needed := (Text.ofNat (sized.flatMap Reading.bytes).length).length
    let unsized := readings.any fun r => isInput r.name || (r.failed && r.counts)
    let width := if columns = 1 ∧ readings.length = 1 then 1
      else if unsized then max 7 needed
      else needed
    let shown := readings.filter Reading.counts
    let each := shown.flatMap fun r =>
      countLine width (countsOf options r.bytes) (if parsed.operands.isEmpty then [] else r.name)
    let sums := totalCounts options (shown.map fun r => countsOf options r.bytes)
    each ++ (if readings.length > 1 then countLine width sums "total" else [])

end StyleBatch.Program
