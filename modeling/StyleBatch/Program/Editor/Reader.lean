import StyleBatch.Program.Editor
import StyleBatch.Program.Regex.Reader

/-!
# Reading editing scripts

Readers take the text that is left and give what they read with the rest. Trouble tells how much
text was left when it was found, since reports say how far the script was read.
-/

namespace StyleBatch.Editor

/-- How much of the script was left when the trouble came up. What is found only after the whole
script was read ends the editor with another code. -/
inductive Left where
  | characters (n : Nat)
  | everything
  /-- The trouble is with the script as a whole. -/
  | unknown
deriving DecidableEq, Repr

structure Trouble where
  message : Text
  left : Left
deriving DecidableEq, Repr

/-- Trouble in front of what is left. -/
def fail {α : Type} (rest message : Text) : Except Trouble α :=
  .error ⟨message, .characters rest.length⟩

def isGap (c : Char) : Bool :=
  c == ' ' || (9 ≤ c.toNat && c.toNat ≤ 13)

/-- Drops blanks, but no line feeds. -/
def skipBlanks (t : Text) : Text :=
  t.dropWhile fun c => isGap c && c != '\n'

/-! ## Escapes -/

/-- Characters that letters behind a backslash stand for. -/
def controlFor? (c : Char) : Option Char :=
  if c = 'a' then some '\x07'
  else if c = 'f' then some '\x0c'
  else if c = 'n' then some '\n'
  else if c = 'r' then some '\r'
  else if c = 't' then some '\t'
  else if c = 'v' then some '\x0b'
  else none

/-- The value of at most so many digits in a base, and what is behind them. -/
def digits? (base most : Nat) (t : Text) : Option (Nat × Text) :=
  let value := fun (c : Char) =>
    if c.isDigit then c.toNat - 48
    else if 'a' ≤ c.toLower && c.toLower ≤ 'f' then c.toLower.toNat - 87
    else 16
  let found := (t.take most).takeWhile fun c => value c < base
  if found.isEmpty then none
  else some (found.foldl (fun n c => n * base + value c) 0 % 256, t.drop found.length)

/-- The character that stands behind a backslash by its number or as a control character. -/
def numbered? : Text → Option (Char × Text)
  | 'd' :: rest => (digits? 10 3 rest).map fun (n, rest) => (Char.ofNat n, rest)
  | 'o' :: rest => (digits? 8 3 rest).map fun (n, rest) => (Char.ofNat n, rest)
  | 'x' :: rest => (digits? 16 2 rest).map fun (n, rest) => (Char.ofNat n, rest)
  | 'c' :: c :: rest => some (Char.ofNat (Nat.xor c.toUpper.toNat 64), rest)
  | _ => none

/-- An expression with its escapes for single characters put in. -/
def withCharacters : Nat → Text → Text
  | 0, t => t
  | _ + 1, [] => []
  | fuel + 1, '\\' :: c :: rest =>
    match controlFor? c, numbered? (c :: rest) with
    | some d, _ => d :: withCharacters fuel rest
    | none, some (d, rest) => d :: withCharacters fuel rest
    | none, none => '\\' :: c :: withCharacters fuel rest
  | fuel + 1, c :: rest => c :: withCharacters fuel rest

/-! ## Between delimiters -/

/-- A set in brackets as it is written, the opening bracket gone. -/
def writtenSet (t : Text) : Option (Text × Text) :=
  let start : Text := match t with
    | '^' :: ']' :: _ => ['^', ']']
    | '^' :: _ => ['^']
    | ']' :: _ => [']']
    | _ => []
  (inside (t.length + 1) (t.drop start.length)).map fun (more, rest) => (start ++ more, rest)
where
  /-- The text through the closing bracket. -/
  inside : Nat → Text → Option (Text × Text)
    | 0, _ => none
    | _ + 1, [] => none
    | fuel + 1, '[' :: mark :: rest =>
      let named := if mark = ':' ∨ mark = '.' ∨ mark = '=' then Regex.upToMark? mark rest else none
      match named with
      | some (name, rest) =>
        (inside fuel rest).map fun (t, rest) => ('[' :: mark :: name ++ mark :: ']' :: t, rest)
      | none => (inside fuel (mark :: rest)).map fun (t, rest) => ('[' :: t, rest)
    | fuel + 1, c :: rest =>
      if c = ']' then some ([c], rest)
      else if c = '\n' then none
      else (inside fuel rest).map fun (t, rest) => (c :: t, rest)

/-- Text up to a delimiter, which a backslash takes away; what is left is the trouble if there is
none. In an expression a set may hold the delimiter. -/
def delimited (expression : Bool) (delimiter : Char) : Nat → Text → Except Text (Text × Text)
  | 0, t => .error t
  | _ + 1, [] => .error []
  | fuel + 1, c :: rest =>
    let goOn := fun (before rest : Text) =>
      (delimited expression delimiter fuel rest).map fun (t, rest) => (before ++ t, rest)
    if c = delimiter then .ok ([], rest)
    else if c = '\\' then
      match rest with
      | [] => .error []
      | d :: rest =>
        if d = delimiter then goOn (if !expression && d == '&' then ['\\', d] else [d]) rest
        else if d = '\n' && expression then goOn [d] rest
        else goOn ['\\', d] rest
    else if c = '\n' then .error (c :: rest)
    else if c = '[' && expression then
      match writtenSet rest with
      | some (set, rest) => goOn (c :: set) rest
      | none => .error (rest.dropWhile (· != '\n'))
    else goOn [c] rest

/-- What an expression is, given the text between its delimiters. -/
def searchOf (extended : Bool) (options : Regex.Options) (written rest : Text) :
    Except Trouble (Search × Nat) :=
  if written.isEmpty then .ok (⟨none, options⟩, 9)
  else match Regex.read extended (withCharacters (written.length + 1) written) with
    | .ok (r, groups) => .ok (⟨some r, options⟩, groups)
    | .error .badClassForm => .error ⟨Regex.Trouble.badClassForm.message, .unknown⟩
    | .error trouble => fail rest trouble.message

/-! ## Addresses -/

/-- A number, which is zero where there are no digits. -/
def natural (t : Text) : Nat × Text :=
  let t := skipBlanks t
  let digits := t.takeWhile Char.isDigit
  ((Program.number? digits).getD 0, t.drop digits.length)

/-- The flags behind an expression in an address. -/
def addressFlags : Regex.Options → Text → Regex.Options × Text
  | options, c :: rest =>
    if c = 'I' then addressFlags { options with ignoreCase := true } rest
    else if c = 'M' then addressFlags { options with lines := true } rest
    else if isGap c && c != '\n' then addressFlags options rest
    else (options, c :: rest)
  | options, [] => (options, [])

def address (extended : Bool) (t : Text) : Except Trouble (Option Address × Text) :=
  let expression := fun (delimiter : Char) (t : Text) =>
    match delimited true delimiter (t.length + 1) t with
    | .error rest => fail rest "unterminated address regex"
    | .ok (written, rest) => do
      let (options, rest) := addressFlags {} rest
      let (search, _) ← searchOf extended options written rest
      return (some (.match search), rest)
  match t with
  | '/' :: rest => expression '/' rest
  | '\\' :: c :: rest => expression c rest
  | '$' :: rest => .ok (some .last, rest)
  | c :: _ =>
    if c.isDigit then
      let (n, rest) := natural t
      match skipBlanks rest with
      | '~' :: rest =>
        let (step, rest) := natural rest
        .ok (some (.every n step), rest)
      | _ => .ok (some (.line n), rest)
    else .ok (none, t)
  | [] => .ok (none, t)

/-- The end of a range behind its comma. -/
def rangeEnd (extended : Bool) (t : Text) : Except Trouble (RangeEnd × Text) :=
  match skipBlanks t with
  | '+' :: rest => let (n, rest) := natural rest; .ok (.after n, rest)
  | '~' :: rest => let (n, rest) := natural rest; .ok (.multiple n, rest)
  | t => do
    match ← address extended t with
    | (some a, rest) => return (.address a, rest)
    | (none, rest) => fail (rest.drop 1) "unexpected `,'"

def isRange : Scope → Bool
  | .range .. => true
  | _ => false

/-- The lines that a command applies to. -/
def scope (extended : Bool) (t : Text) : Except Trouble (Scope × Text) := do
  let (first, rest) ← address extended t
  match first with
  | none => return (.all, rest)
  | some first =>
    let (s, rest) ← match skipBlanks rest with
      | ',' :: rest => do
        let (last, rest) ← rangeEnd extended rest
        pure (Scope.range first last, rest)
      | _ => pure (Scope.at first, rest)
    let beforeAll := match s with
      | .at (.line 0) => true
      | .range (.line 0) (.address (.match _)) => false
      | .range (.line 0) _ => true
      | _ => false
    if beforeAll then fail (skipBlanks rest).tail "invalid usage of line address 0"
    else return (s, rest)

/-! ## Arguments -/

/-- What is behind a command, which has to end here. -/
def commandEnd (t : Text) : Except Trouble Text :=
  match skipBlanks t with
  | [] => .ok []
  | c :: rest =>
    if c = '\x7d' ∨ c = '#' then .ok (c :: rest)
    else if c = '\n' ∨ c = ';' then .ok rest
    else fail rest "extra characters after command"

/-- A label up to a blank or a semicolon. -/
def labelName (t : Text) : Text × Text :=
  let t := skipBlanks t
  let name := t.takeWhile fun c => !isGap c && c != ';' && c != '\x7d'
  (name, t.drop name.length)

/-- The name of a file up to the end of the line. -/
def fileName (t : Text) : Except Trouble (Text × Text) :=
  let t := skipBlanks t
  let name := t.takeWhile (· != '\n')
  if name.isEmpty then fail t "missing filename in r/R/w/W commands"
  else .ok (name, t.drop (name.length + 1))

/-- Text up to the end of a line that no backslash stands in front of. -/
def linesOfText : Text → Text × Text
  | [] => ([], [])
  | '\\' :: c :: rest =>
    let (t, rest) := linesOfText rest
    (if c = '\n' then c :: t else (controlFor? c).getD c :: t, rest)
  | '\n' :: rest => ([], rest)
  | '\\' :: [] => ([], [])
  | c :: rest => let (t, rest) := linesOfText rest; (c :: t, rest)

/-- The text that a command adds. -/
def addedText (t : Text) : Except Trouble (Text × Text) :=
  match skipBlanks t with
  | [] => fail [] "expected \\ after `a', `c' or `i'"
  | '\\' :: [] => .ok ([], [])
  | '\\' :: rest =>
    let rest := match skipBlanks rest with
      | '\n' :: more => more
      | _ => rest
    let (t, rest) := linesOfText rest
    .ok (t ++ ['\n'], rest)
  | t =>
    let (t, rest) := linesOfText t
    .ok (t ++ ['\n'], rest)

/-- The parts of a replacement. -/
def pieces : Nat → Text → List Piece
  | 0, _ => []
  | _ + 1, [] => []
  | fuel + 1, '&' :: rest => .group 0 :: pieces fuel rest
  | fuel + 1, '\\' :: c :: rest =>
    if c.isDigit then .group (c.toNat - 48) :: pieces fuel rest
    else if ['L', 'U', 'l', 'u', 'E'].contains c then .case c :: pieces fuel rest
    else match controlFor? c, numbered? (c :: rest) with
      | some d, _ => .text [d] :: pieces fuel rest
      | none, some (d, rest) => .text [d] :: pieces fuel rest
      | none, none => .text [c] :: pieces fuel rest
  | fuel + 1, c :: rest => .text [c] :: pieces fuel rest

/-- Flags of a substitution. -/
structure Flags where
  options : Regex.Options := {}
  all : Bool := false
  prints : Bool := false
  count? : Option Nat := none
  file? : Option Text := none

/-- The flags behind a substitution through the end of the command. -/
def flags : Nat → Flags → Text → Except Trouble (Flags × Text)
  | 0, f, t => .ok (f, t)
  | _ + 1, f, [] => .ok (f, [])
  | fuel + 1, f, c :: rest =>
    if c = 'i' ∨ c = 'I' then
      flags fuel { f with options := { f.options with ignoreCase := true } } rest
    else if c = 'm' ∨ c = 'M' then
      flags fuel { f with options := { f.options with lines := true } } rest
    else if c = 'g' then
      if f.all then fail rest "multiple `g' options to `s' command"
      else flags fuel { f with all := true } rest
    else if c = 'p' then
      if f.prints then fail rest "multiple `p' options to `s' command"
      else flags fuel { f with prints := true } rest
    else if c = 'w' then do
      let (name, rest) ← fileName rest
      return ({ f with file? := some name }, rest)
    else if c.isDigit then
      if f.count?.isSome then fail rest "multiple number options to `s' command"
      else
        let (n, rest) := natural (c :: rest)
        if n = 0 then fail rest "number option to `s' command may not be zero"
        else flags fuel { f with count? := some n } rest
    else if c = '\x7d' ∨ c = '#' then .ok (f, c :: rest)
    else if c = '\n' ∨ c = ';' then .ok (f, rest)
    else if isGap c then flags fuel f rest
    else fail rest "unknown option to `s'"

/-- A substitution behind its letter. -/
def substitution (extended : Bool) (t : Text) : Except Trouble (Substitution × Text) := do
  let unterminated := fun (rest : Text) =>
    (fail rest "unterminated `s' command" : Except Trouble (Substitution × Text))
  match t with
  | [] => unterminated []
  | delimiter :: rest =>
    match delimited true delimiter (rest.length + 1) rest with
    | .error rest => unterminated rest
    | .ok (written, rest) =>
      match delimited false delimiter (rest.length + 1) rest with
      | .error rest => unterminated rest
      | .ok (replacement, rest) =>
        let (f, rest) ← flags (rest.length + 1) {} rest
        let (search, groups) ← searchOf extended f.options written rest
        let replacement := pieces (replacement.length + 1) replacement
        let bad := replacement.find? fun piece => match piece with
          | .group n => n > groups
          | _ => false
        match bad with
        | some (.group n) =>
          fail rest ("invalid reference \\" ++ Text.ofNat n ++ " on `s' command's RHS")
        | _ => return (⟨search, replacement, f.all, f.count?.getD 1, f.prints, f.file?⟩, rest)

/-- A list of characters with its escapes put in. -/
def characters : Text → Text
  | '\\' :: c :: rest => (controlFor? c).getD c :: characters rest
  | c :: rest => c :: characters rest
  | [] => []

/-- The pairs of an exchange behind its letter. -/
def exchange (t : Text) : Except Trouble (List (Char × Char) × Text) := do
  let unterminated := fun (rest : Text) =>
    (fail rest "unterminated `y' command" : Except Trouble (List (Char × Char) × Text))
  match t with
  | [] => unterminated []
  | delimiter :: rest =>
    match delimited false delimiter (rest.length + 1) rest with
    | .error rest => unterminated rest
    | .ok (source, rest) =>
      match delimited false delimiter (rest.length + 1) rest with
      | .error rest => unterminated rest
      | .ok (target, rest) =>
        let source := characters source
        let target := characters target
        if source.length ≠ target.length then
          fail rest "strings for `y' command are different lengths"
        else return (source.zip target, ← commandEnd rest)

/-! ## Commands -/

/-- Commands of one letter without arguments. -/
def plainLetters : Text :=
  "=dDFgGhHnNpPxz"

/-- The action of a letter and what is behind it. -/
def action (extended : Bool) (letter : Char) (t : Text) : Except Trouble (Action × Text) := do
  if plainLetters.contains letter then return (.plain letter, ← commandEnd t)
  else if letter = 'a' then return (← addedText t).map .append id
  else if letter = 'i' then return (← addedText t).map .insert id
  else if letter = 'c' then return (← addedText t).map .change id
  else if letter = 'b' ∨ letter = 't' ∨ letter = 'T' then
    let (name, rest) := labelName t
    return (.jump letter name, ← commandEnd rest)
  else if letter = 'q' ∨ letter = 'Q' then
    let (code, rest) := natural t
    return (.quit (letter = 'q') (code % 256), ← commandEnd rest)
  else if letter = 'l' then
    let (width, rest) := natural t
    let given := (skipBlanks t).head?.any Char.isDigit
    return (.list (if given then some width else none), ← commandEnd rest)
  else if letter = 'r' then return (← fileName t).map .readFile id
  else if letter = 'w' then return (← fileName t).map .writeFile id
  else if letter = 'y' then return (← exchange t).map .exchange id
  else if letter = 's' then return (← substitution extended t).map .substitute id
  else fail t ("unknown command: `" ++ [letter] ++ "'")

/-- One command with its scope; `depth` tells how many blocks are open. -/
def command (extended : Bool) (depth : Nat) (t : Text) : Except Trouble (Command × Text) := do
  let (s, rest) ← scope extended t
  let (negated, rest) ← match skipBlanks rest with
    | '!' :: rest =>
      match skipBlanks rest with
      | '!' :: rest => fail rest "multiple `!'s"
      | rest => pure (true, rest)
    | rest => pure (false, rest)
  match rest with
  | [] => fail [] "missing command"
  | letter :: rest =>
    if letter = '\x7b' then return (⟨s, negated, .openBlock⟩, rest)
    else if letter = '\x7d' then
      if depth = 0 then fail rest "unexpected `\x7d'"
      else if s ≠ .all then fail rest "`\x7d' doesn't want any addresses"
      else return (⟨s, negated, .closeBlock⟩, ← commandEnd rest)
    else if letter = ':' then
      if s ≠ .all then fail rest ": doesn't want any addresses"
      else
        let (name, rest) := labelName rest
        if name.isEmpty then fail rest "\":\" lacks a label"
        else return (⟨s, negated, .label name⟩, rest)
    else if letter = '#' then fail rest "comments don't accept any addresses"
    else if (letter = 'q' ∨ letter = 'Q') ∧ isRange s then
      fail rest "command only uses one address"
    else
      let (a, rest) ← action extended letter rest
      return (⟨s, negated, a⟩, rest)

/-- The commands of a script, of which `depth` blocks are open. -/
def commands (extended : Bool) : Nat → Nat → Text → Except Trouble (List Command)
  | 0, _, _ => .ok []
  | fuel + 1, depth, t =>
    match t.dropWhile fun c => isGap c || c == ';' with
    | [] => if depth = 0 then .ok [] else .error ⟨"unmatched `\x7b'", .everything⟩
    | '#' :: rest => commands extended fuel depth (rest.dropWhile (· != '\n'))
    | t => do
      let (c, rest) ← command extended depth t
      let depth := match c.action with
        | .openBlock => depth + 1
        | .closeBlock => depth - 1
        | _ => depth
      return c :: (← commands extended fuel depth rest)

/-- The labels of a script. -/
def labels (script : List Command) : List Text :=
  script.filterMap fun c => match c.action with
    | .label name => some name
    | _ => none

/-- Reads a script. -/
def read (extended : Bool) (t : Text) : Except Trouble (List Command) := do
  let script ← commands extended (t.length + 1) 0 t
  let lost := script.findSome? fun c => match c.action with
    | .jump _ name => if name.isEmpty || (labels script).contains name then none else some name
    | _ => none
  match lost with
  | some name => throw ⟨"can't find label for jump to `" ++ name ++ "'", .unknown⟩
  | none => return script

end StyleBatch.Editor
