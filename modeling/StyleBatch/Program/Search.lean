import StyleBatch.Program.Lines
import StyleBatch.Program.Regex.Reader

/-!
# Searching lines

`grep` gives the lines that one of its patterns matches. A pattern is an expression or a plain
text, and each of its lines is a pattern of its own.
-/

namespace StyleBatch.Search

def forms : List Program.OptionForm :=
  [⟨'i', false, "ignore-case"⟩, { letter := 'y' }, ⟨'v', false, "invert-match"⟩,
    ⟨'c', false, "count"⟩, ⟨'n', false, "line-number"⟩, ⟨'l', false, "files-with-matches"⟩,
    ⟨'L', false, "files-without-match"⟩, ⟨'q', false, "quiet"⟩, ⟨'q', false, "silent"⟩,
    ⟨'o', false, "only-matching"⟩, ⟨'w', false, "word-regexp"⟩, ⟨'x', false, "line-regexp"⟩,
    ⟨'E', false, "extended-regexp"⟩, ⟨'F', false, "fixed-strings"⟩, ⟨'G', false, "basic-regexp"⟩,
    ⟨'e', true, "regexp"⟩, ⟨'f', true, "file"⟩, ⟨'h', false, "no-filename"⟩,
    ⟨'H', false, "with-filename"⟩, ⟨'s', false, "no-messages"⟩, ⟨'m', true, "max-count"⟩,
    ⟨'a', false, "text"⟩]

/-- A plain text as an expression. -/
def plainRegex : Text → Regex
  | [] => .empty
  | [c] => .char c
  | c :: rest => .both (.char c) (plainRegex rest)

/-- The expression of one pattern; with `x` it takes whole lines and with `w` whole words. -/
def regexOf (parsed : Program.Parsed) (pattern : Text) : Except Regex.Trouble Regex := do
  let form := (parsed.options.reverse.find? fun o => ("EFG" : Text).contains o.1).map Prod.fst
  let r ← if form = some 'F' then pure (plainRegex pattern)
    else (Regex.read (form = some 'E') pattern).map Prod.fst
  if parsed.has 'x' then return .both (.edge .textStart) (.both r (.edge .textEnd))
  else return r

/-- Whether a match stands between characters that belong to no word. -/
def isWord (start stop : Regex.Spot) : Bool :=
  !start.before.any Regex.isWordChar && !stop.rest.head?.any Regex.isWordChar

/-- The longest match of any of the expressions that starts here. With `words` only whole words
count. -/
def matchHere? (options : Regex.Options) (words : Bool) (patterns : List Regex) (s : Regex.Spot) :
    Option Regex.Spot :=
  let found := (patterns.flatMap fun r => r.ends options s).filter fun e => !words || isWord s e
  found.foldl (fun best e =>
    match best with
    | some b => if e.position > b.position then some e else some b
    | none => some e) none

/-- The matches in a line, one behind the other; `fuel` bounds their number. -/
def matchesFrom (options : Regex.Options) (words : Bool) (patterns : List Regex) :
    Nat → Regex.Spot → List Text
  | 0, _ => []
  | fuel + 1, s =>
    let next := fun (s : Regex.Spot) =>
      match s.rest with
      | c :: rest => matchesFrom options words patterns fuel (s.next c rest)
      | [] => []
    match matchHere? options words patterns s with
    | some e =>
      let t := s.rest.take (e.position - s.position)
      if t.isEmpty then [] :: next s
      else t :: matchesFrom options words patterns fuel { e with groups := [] }
    | none => next s

/-- The matches in a line. -/
def matchesIn (options : Regex.Options) (words : Bool) (patterns : List Regex) (line : Text) :
    List Text :=
  matchesFrom options words patterns (line.length + 1) (Regex.Spot.first line)

/-- How one file is reported. -/
structure Report where
  output : Bytes
  found : Bool

/-- Searches one file. -/
def searchFile (parsed : Program.Parsed) (patterns : List Regex) (label : Option Text)
    (name : Text) (bytes : Bytes) : Report :=
  let options : Regex.Options := { ignoreCase := parsed.has 'i' || parsed.has 'y' }
  let lines := (Program.bareLines bytes).zipIdx.map fun (line, i) =>
    (i + 1, line, matchesIn options (parsed.has 'w') patterns (Program.bytesAsText line))
  let chosen := lines.filter fun (_, _, found) => found.isEmpty == parsed.has 'v'
  let chosen := match (parsed.value? 'm').bind Program.number? with
    | some n => chosen.take n
    | none => chosen
  let mark := fun (n : Nat) =>
    Utf8.encode ((match label with
      | some label => label ++ [':']
      | none => []) ++ (if parsed.has 'n' then Text.ofNat n ++ [':'] else []))
  let labelled := Utf8.encode (match label with
    | some label => label ++ [':']
    | none => [])
  let output :=
    if parsed.has 'q' then []
    else if parsed.has 'L' then
      if chosen.isEmpty then Utf8.encode (name ++ ['\n']) else []
    else if parsed.has 'l' then
      if chosen.isEmpty then [] else Utf8.encode (name ++ ['\n'])
    else if parsed.has 'c' then labelled ++ Utf8.encode (Text.ofNat chosen.length ++ ['\n'])
    else if parsed.has 'o' then
      if parsed.has 'v' then []
      else chosen.flatMap fun (n, _, found) =>
        (found.filter fun t => !t.isEmpty).flatMap fun t =>
          mark n ++ Program.ascii t ++ [Bytes.lineFeed]
    else chosen.flatMap fun (n, line, _) => mark n ++ line ++ [Bytes.lineFeed]
  ⟨output, !chosen.isEmpty⟩

def usage : Text :=
  "Usage: grep [OPTION]... PATTERNS [FILE]...\nTry 'grep --help' for more information.\n"

/-- Gives the lines that match. -/
def run (parsed : Program.Parsed) (texts : List Text) (names : List Text) : Program := fun p =>
  let patterns := texts.flatMap fun t => Text.splitAtEach '\n' (Program.bytesAsText (Utf8.encode t))
  match patterns.mapM (regexOf parsed) with
  | .error trouble => p.complain 2 trouble.message
  | .ok patterns =>
    let names := if names.isEmpty then [("-" : Text)] else names
    let (readings, unread) := Program.readNames p.disk 0 names p.input
    let labelled := (names.length > 1 || parsed.has 'H') && !parsed.has 'h'
    let reports := readings.map fun r =>
      let shown := if r.name = (['-'] : Text) then ("(standard input)" : Text) else r.name
      match r.content with
      | .ok bytes => searchFile parsed patterns (if labelled then some shown else none) shown bytes
      | .error _ => ⟨[], false⟩
    let complaint : Program.Complaint := fun name fault => name ++ ": " ++ fault.reason
    let errors := if parsed.has 's' then [] else Program.complaints p.name complaint readings
    let found := if parsed.has 'L' then (reports.flatMap Report.output) != []
      else reports.any Report.found
    let failed := readings.any Program.Reading.failed
    let code := if failed && !(found && parsed.has 'q') then 2 else if found then 0 else 1
    ⟨.code code, reports.flatMap Report.output, errors, unread, p.disk⟩

/-- The first operand is the pattern unless options give some. -/
def grep : Program := fun p =>
  match Program.parseArguments false forms p.arguments with
  | .error message =>
    { p.exitWith 2 with errors := Utf8.encode (p.name ++ ": " ++ message ++ '\n' :: usage) }
  | .ok parsed =>
    let given := parsed.options.filterMap fun o => match o with
      | ('e', value) => some value
      | ('f', file) => match p.disk.read file with
        | .ok bytes =>
          let t := Utf8.decodeLossy bytes
          some ((Text.before? "\n" t).getD t)
        | .error _ => none
      | _ => none
    match given, parsed.operands with
    | [], [] => { p.exitWith 2 with errors := Utf8.encode usage }
    | [], pattern :: names => run parsed [pattern] names p
    | given, names => run parsed given names p

end StyleBatch.Search
