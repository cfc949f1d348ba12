import StyleBatch.Json.Reader

/-!
# TOML strings

A basic string stands in double quotes and has escapes, a literal string stands in single
quotes and has none; with three quotes either may go over several lines. `quote` chooses
the first form of these that can hold a text as it stands: basic, literal, basic over
several lines, literal over several lines; failing all, it escapes.
-/

namespace StyleBatch.Toml

/-- Blanks within a line. -/
def isBlank (c : Char) : Bool :=
  c == ' ' || c == '\t'

def skipBlanks (t : Text) : Text :=
  t.dropWhile isBlank

/-- Characters that may stand in comments and, but for quotes and backslash, in strings. -/
def isPlain (c : Char) : Bool :=
  c == '\t' || (' ' ≤ c && c ≤ '~') || '\x7f' < c

/-- What follows a line break. -/
def newline? : Text → Option Text
  | '\n' :: rest => some rest
  | '\r' :: '\n' :: rest => some rest
  | _ => none

/-- Skips blanks and line breaks. -/
def skipLines : Text → Text
  | [] => []
  | '\r' :: '\n' :: rest => skipLines rest
  | c :: rest => if c = '\n' ∨ isBlank c then skipLines rest else c :: rest

/-! ## Reading -/

/-- The character with a number of so many hexadecimal digits. -/
def codePoint? (digits : Nat) (t : Text) : Option (Char × Text) := do
  let values ← (t.take digits).mapM Json.hexValue?
  let n := values.foldl (fun n v => n * 16 + v) 0
  if values.length = digits ∧ n.isValidChar then return (Char.ofNat n, t.drop digits)
  else none

/-- The character of an escape, after the backslash. -/
def escape? : Text → Option (Char × Text)
  | '"' :: rest => some ('"', rest)
  | '\\' :: rest => some ('\\', rest)
  | 'b' :: rest => some ('\x08', rest)
  | 'f' :: rest => some ('\x0c', rest)
  | 'n' :: rest => some ('\n', rest)
  | 'r' :: rest => some ('\r', rest)
  | 't' :: rest => some ('\t', rest)
  | 'u' :: rest => codePoint? 4 rest
  | 'U' :: rest => codePoint? 8 rest
  | _ => none

/-- A basic string from behind its opening quote through its closing quote. -/
def basicTail? : Nat → Text → Option (Text × Text)
  | _, [] => none
  | 0, _ => none
  | fuel + 1, c :: rest =>
    if c = '"' then some ([], rest)
    else if c = '\\' then do
      let (d, rest) ← escape? rest
      let (tail, rest) ← basicTail? fuel rest
      return (d :: tail, rest)
    else if isPlain c then (basicTail? fuel rest).map fun (tail, rest) => (c :: tail, rest)
    else none

/-- A literal string from behind its opening quote through its closing quote. -/
def literalTail? : Text → Option (Text × Text)
  | [] => none
  | c :: rest =>
    if c = '\x27' then some ([], rest)
    else if isPlain c then (literalTail? rest).map fun (tail, rest) => (c :: tail, rest)
    else none

/-- The end of a string in three quotes: one or two further quotes belong to the string. -/
def closing? (quote : Char) (t : Text) : Option (Text × Text) :=
  let quotes := (t.takeWhile (· == quote)).length
  if 3 ≤ quotes then
    let own := min (quotes - 3) 2
    some (List.replicate own quote, t.drop (3 + own))
  else none

/-- After the backslash: a break of the line in the source, and what follows the blanks. -/
def foldedLine? (t : Text) : Option Text :=
  (newline? (skipBlanks t)).map skipLines

/-- A string in three quotes from behind them through the closing ones. -/
def linesTail? (quote : Char) : Nat → Text → Option (Text × Text)
  | _, [] => none
  | 0, _ => none
  | fuel + 1, c :: rest =>
    let continued (d : Char) (rest : Text) : Option (Text × Text) :=
      (linesTail? quote fuel rest).map fun (tail, rest) => (d :: tail, rest)
    if c = quote then
      match closing? quote (c :: rest) with
      | some ending => some ending
      | none => continued c rest
    else if c = '\\' ∧ quote = '"' then
      match foldedLine? rest with
      | some rest => linesTail? quote fuel rest
      | none => do
        let (d, rest) ← escape? rest
        continued d rest
    else
      match newline? (c :: rest) with
      | some rest => continued '\n' rest
      | none => if isPlain c then continued c rest else none

/-- A line break right behind three opening quotes does not count. -/
def withoutFirstBreak (t : Text) : Text :=
  (newline? t).getD t

/-- A string on one line. -/
def lineString? : Text → Option (Text × Text)
  | '"' :: rest => basicTail? (rest.length + 1) rest
  | '\x27' :: rest => literalTail? rest
  | _ => none

/-- A string in any of the four forms. -/
def string? (t : Text) : Option (Text × Text) :=
  match t with
  | '"' :: '"' :: '"' :: rest => linesTail? '"' (rest.length + 1) (withoutFirstBreak rest)
  | '\x27' :: '\x27' :: '\x27' :: rest =>
    linesTail? '\x27' (rest.length + 1) (withoutFirstBreak rest)
  | _ => lineString? t

/-! ## Writing -/

/-- Characters that no string holds as they are, the line break apart. -/
def isControl (c : Char) : Bool :=
  (c < ' ' && c != '\t' && c != '\n') || c == '\x7f'

/-- The longest run of a character. -/
def longestRun (c : Char) (t : Text) : Nat :=
  let (_, longest) := t.foldl (fun (run, longest) d =>
    if d = c then (run + 1, max longest (run + 1)) else (0, longest)) (0, 0)
  longest

/-- The escape of a character that needs one in a basic string; a quote is dealt with by
its place and not by this. -/
def escaped? (lines : Bool) (c : Char) : Option Text :=
  if c = '\x08' then some "\\b"
  else if c = '\t' then some "\\t"
  else if c = '\n' then if lines then none else some "\\n"
  else if c = '\x0c' then some "\\f"
  else if c = '\r' then some "\\r"
  else if c = '\\' then some "\\\\"
  else if isControl c then
    let digit := fun (n : Nat) => (Nat.digitChar n).toUpper
    some ("\\u00" ++ [digit (c.toNat / 16), digit (c.toNat % 16)])
  else none

/-- The inside of a basic string; `run` quotes stand before it, and one more than the form
bears is escaped. -/
def escape (lines : Bool) : Nat → Text → Text
  | _, [] => []
  | run, c :: rest =>
    if c = '"' then
      if run < (if lines then 2 else 0) then c :: escape lines (run + 1) rest
      else "\\\"" ++ escape lines 0 rest
    else
      match escaped? lines c with
      | some e => e ++ escape lines 0 rest
      | none => c :: escape lines 0 rest

/-- Three quotes; a text with line breaks begins on the next line. -/
def openLines (quote : Char) (t : Text) : Text :=
  List.replicate 3 quote ++ (if t.contains '\n' then ['\n'] else [])

/-- A string in the first form that suits the text. -/
def quote (t : Text) : Text :=
  let control := t.any isControl
  let lines := t.contains '\n'
  let bare := !control && !t.contains '\\'
  let double := longestRun '"' t
  let single := longestRun '\x27' t
  let basic := '"' :: escape false 0 t ++ ['"']
  let basicLines := openLines '"' t ++ escape true 0 t ++ List.replicate 3 '"'
  if bare && double == 0 && !lines then basic
  else if !control && single == 0 && !lines then '\x27' :: t ++ ['\x27']
  else if bare && double ≤ 2 then basicLines
  else if !control && single ≤ 2 then openLines '\x27' t ++ t ++ List.replicate 3 '\x27'
  else if lines then basicLines
  else basic

end StyleBatch.Toml
