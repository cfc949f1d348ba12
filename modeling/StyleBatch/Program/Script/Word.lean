import StyleBatch.Program.Script

/-!
# Words of scripts

How a text is read as a word: quotes, parameters and brackets.
-/

namespace StyleBatch.Script

def isNameStart (c : Char) : Bool :=
  c.isAlpha || c == '_'

def isNameChar (c : Char) : Bool :=
  c.isAlphanum || c == '_'

/-- Whether a text can be the name of a variable. -/
def isName (t : Text) : Bool :=
  match t with
  | c :: rest => isNameStart c && rest.all isNameChar
  | [] => false

/-- Characters that name a parameter of their own. -/
def isSpecial (c : Char) : Bool :=
  ("@*#?$!-" : Text).contains c

/-- Characters that end a word outside quotes. -/
def endsWord (c : Char) : Bool :=
  (" \t\n;&|<>()" : Text).contains c

/-! ## Brackets -/

/-- What is open on the way to a closing mark, innermost first, by the mark that closes it: `e`
stands for the word that ends a choice by patterns and a line break for the end of a comment. -/
structure Scan where
  closers : List Char
  escaped : Bool := false
  /-- Whether the last character may open brackets as a dollar sign. -/
  dollar : Bool := false
  /-- The word that is being read, its last character first. -/
  word : Text := []
  /-- Whether that word may be a keyword. -/
  leads : Bool := true

/-- Opens something. -/
def Scan.push (c : Char) (s : Scan) : Scan :=
  { closers := c :: s.closers }

/-- Goes on behind what was open, as part of a word that is no keyword. -/
def Scan.pop (s : Scan) : Scan :=
  { closers := s.closers.tail, word := ['?'], leads := false }

/-- Goes on within a word. -/
def Scan.take (c : Char) (s : Scan) : Scan :=
  { s with escaped := c == '\\', dollar := c == '$', word := c :: s.word }

/-- Keywords with a command behind them. -/
def leadingKeywords : List Text :=
  Text.splitAtEach ' ' "if then elif else while until do ! \x7b"

/-- Ends the word that is being read within a script. -/
def Scan.endWord (s : Scan) : Scan :=
  let word := s.word.reverse
  let s := { s with word := [], dollar := false }
  if word.isEmpty then s
  else if s.leads && word == ("case" : Text) then { s.push 'e' with leads := false }
  else if s.leads && word == ("esac" : Text) && s.closers.head? == some 'e' then
    { s.pop with word := [] }
  else { s with leads := s.leads && leadingKeywords.contains word }

/-- Goes on by one character within a script. A bracket behind a pattern closes nothing. -/
def Scan.stepInScript (c : Char) (s : Scan) : Scan :=
  if endsWord c then
    let s := s.endWord
    if c = ')' then if s.closers.head? = some ')' then s.pop else { s with leads := true }
    else if c = '(' then s.push ')'
    else if (" \t<>" : Text).contains c then s
    else { s with leads := true }
  else if c = '\x27' ∨ c = '"' ∨ c = '`' then s.push c
  else if c = '#' ∧ s.word = [] then { s.push '\n' with leads := s.leads }
  else s.take c

/-- Goes on by one character. -/
def Scan.step (s : Scan) (c : Char) : Scan :=
  match s.closers with
  | [] => s
  | top :: below =>
    if s.escaped then { s with escaped := false }
    else if top = '\n' then if c = top then { closers := below } else s
    else if top = '\x27' then if c = top then s.pop else s
    else if c = '\\' then s.take c
    else if s.dollar && c = '(' then s.push ')'
    else if s.dollar && c = '\x7b' then s.push '\x7d'
    else if top = ')' ∨ top = 'e' then s.stepInScript c
    else if c = top then s.pop
    else if top = '`' then s.take c
    else if c = '\x27' && top ≠ '"' && below.head? != some '"' then s.push '\x27'
    else if c = '"' && top ≠ '"' then s.push '"'
    else if c = '`' then s.push '`'
    else s.take c

/-- A text up to the mark that closes all that is open, and what follows the mark. -/
def enclosedFrom? (s : Scan) : Text → Option (Text × Text)
  | [] => none
  | c :: rest =>
    let next := s.step c
    if next.closers.isEmpty then some ([], rest)
    else (enclosedFrom? next rest).map fun (inside, rest) => (c :: inside, rest)

/-- A text up to the closing mark. -/
def enclosed? (closers : Text) (t : Text) : Option (Text × Text) :=
  enclosedFrom? { closers } t

/-! ## Parameters -/

/-- What is done with a parameter, by what stands behind its name. -/
def readOperation (t : Text) : Operation :=
  let byMark := fun (orEmpty : Bool) (t : Text) => match t with
    | '-' :: word => Operation.default orEmpty word
    | '=' :: word => .assign orEmpty word
    | '+' :: word => .alternative orEmpty word
    | '?' :: word => .demand orEmpty word
    | _ => .bad
  match t with
  | [] => .value
  | ':' :: rest => byMark true rest
  | '#' :: '#' :: pattern => .trimStart true pattern
  | '#' :: pattern => .trimStart false pattern
  | '%' :: '%' :: pattern => .trimEnd true pattern
  | '%' :: pattern => .trimEnd false pattern
  | t => byMark false t

/-- The name of a parameter in front of a text. -/
def parameterName (t : Text) : Text :=
  match t with
  | [] => []
  | c :: rest =>
    if isNameStart c then c :: rest.takeWhile isNameChar
    else if c.isDigit then c :: rest.takeWhile Char.isDigit
    else if isSpecial c then [c]
    else []

/-- A parameter as it stands in braces. -/
def readParameter (quoted : Bool) (inside : Text) : Piece :=
  let plain := fun (t : Text) =>
    let name := parameterName t
    if name.isEmpty then Piece.parameter t .bad quoted
    else .parameter name (readOperation (t.drop name.length)) quoted
  match inside with
  | '#' :: rest =>
    let name := parameterName rest
    if !name.isEmpty && name.length = rest.length then .parameter name .length quoted
    else plain inside
  | t => plain t

/-- Removes the backslashes in front of marks within backquotes. -/
def unquoteBackquoted (quoted : Bool) : Text → Text
  | '\\' :: c :: rest =>
    if c = '`' ∨ c = '\\' ∨ c = '$' ∨ (quoted ∧ c = '"') then c :: unquoteBackquoted quoted rest
    else '\\' :: c :: unquoteBackquoted quoted rest
  | c :: rest => c :: unquoteBackquoted quoted rest
  | [] => []

def countBreaks (t : Text) : Nat :=
  t.count '\n'

/-- What stands behind a dollar sign; a lone sign stands for itself. The trouble is that an
end is missing. -/
def expansion (quoted : Bool) (line : Nat) (t : Text) : Except Text (Piece × Text) :=
  match t with
  | [] => .ok (.text ['$'] quoted, [])
  | '(' :: '(' :: rest =>
    match enclosed? [')', ')'] rest with
    | some (inside, more) =>
      if inside.getLast? = some ')' then .ok (.arithmetic inside.dropLast quoted, more)
      else .error "Missing '))'"
    | none => .error "Missing '))'"
  | '(' :: rest =>
    match enclosed? [')'] rest with
    | some (script, rest) => .ok (.output line script quoted, rest)
    | none => .error "end of file unexpected (expecting \")\")"
  | '\x7b' :: rest =>
    match enclosed? ['\x7d'] rest with
    | some (inside, rest) => .ok (readParameter quoted inside, rest)
    | none => .error "Missing '\x7d'"
  | c :: rest =>
    if isNameStart c then
      .ok (.parameter (c :: rest.takeWhile isNameChar) .value quoted, rest.dropWhile isNameChar)
    else if isSpecial c || c.isDigit then .ok (.parameter [c] .value quoted, rest)
    else .ok (.text ['$'] quoted, c :: rest)

/-- What stands behind a backquote. -/
def backquoted (quoted : Bool) (line : Nat) (t : Text) : Except Text (Piece × Text) :=
  match enclosed? ['`'] t with
  | some (inside, rest) => .ok (.output line (unquoteBackquoted quoted inside) quoted, rest)
  | none => .error "EOF in backquote substitution"

/-! ## Quotes -/

/-- Pieces of a quoted text. With `marks` a double quote ends it, and its rest follows; without
it goes to the end. -/
def quotedPieces (marks : Bool) (line : Nat) : Nat → Text → Except Text (List Piece × Text)
  | 0, _ => .error "Unterminated quoted string"
  | _ + 1, [] => if marks then .error "Unterminated quoted string" else .ok ([], [])
  | fuel + 1, c :: rest => do
    let continued := fun (piece : Piece) (rest : Text) => do
      let (pieces, rest) ← quotedPieces marks line fuel rest
      return (piece :: pieces, rest)
    if c = '"' && marks then return ([], rest)
    else if c = '\\' then
      match rest with
      | [] => continued (.text [c] true) []
      | d :: rest =>
        if d = '\\' ∨ d = '$' ∨ d = '`' ∨ (d = '"' ∧ marks) then continued (.text [d] true) rest
        else if d = '\n' then quotedPieces marks line fuel rest
        else continued (.text [c, d] true) rest
    else if c = '$' then
      let (piece, rest) ← expansion true line rest
      continued piece rest
    else if c = '`' then
      let (piece, rest) ← backquoted true line rest
      continued piece rest
    else continued (.text [c] true) rest

/-- A text as lines of a script give it, or as the inside of quotes. -/
def quotedWord (line : Nat) (t : Text) : Except Text Word :=
  (quotedPieces false line (t.length + 2) t).map Prod.fst

/-- A quoted part keeps its word even if it is empty, but for a list of no arguments. -/
def keepQuoted (pieces : List Piece) : List Piece :=
  match pieces with
  | [.parameter ['@'] .value true] => pieces
  | pieces => .text [] true :: pieces

/-- A word up to where it ends; `ends` tells which characters end it. -/
def wordPieces (ends : Char → Bool) (line : Nat) : Nat → Text → Except Text (Word × Text)
  | 0, t => .ok ([], t)
  | _ + 1, [] => .ok ([], [])
  | fuel + 1, c :: rest => do
    let continued := fun (pieces : List Piece) (rest : Text) => do
      let (more, rest) ← wordPieces ends line fuel rest
      return (pieces ++ more, rest)
    if ends c then return ([], c :: rest)
    else if c = '\\' then
      match rest with
      | [] => continued [.text [c] true] []
      | d :: rest => continued (if d = '\n' then [] else [.text [d] true]) rest
    else if c = '\x27' then
      match Text.cutAt? '\x27' rest with
      | some (inside, rest) => continued [.text inside true] rest
      | none => throw ("Unterminated quoted string" : Text)
    else if c = '"' then
      let (inside, rest) ← quotedPieces true line (rest.length + 2) rest
      continued (keepQuoted inside) rest
    else if c = '$' then
      let (piece, rest) ← expansion false line rest
      continued [piece] rest
    else if c = '`' then
      let (piece, rest) ← backquoted false line rest
      continued [piece] rest
    else continued [.text [c] false] rest

/-- The word in front of a text. -/
def readWord (line : Nat) (t : Text) : Except Text (Word × Text) :=
  wordPieces endsWord line (t.length + 1) t

/-- All of a text as a word, in which blanks are ordinary. -/
def wholeWord (line : Nat) (t : Text) : Except Text Word :=
  (wordPieces (fun _ => false) line (t.length + 1) t).map Prod.fst

/-- The text of a word without quotes and parameters. -/
def plain? (w : Word) : Option Text :=
  (w.mapM fun (piece : Piece) => match piece with
    | .text t false => some t
    | _ => none).map List.flatten

/-- The text of a word as a mark for the end of lines, and whether any of it is quoted. -/
def markOf (w : Word) : Text × Bool :=
  (w.flatMap fun piece => match piece with
    | .text t _ => t
    | .parameter name _ _ => '$' :: name
    | _ => [],
    w.any fun piece => match piece with
    | .text _ quoted => quoted
    | _ => false)

end StyleBatch.Script
