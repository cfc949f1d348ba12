import StyleBatch.Program
import StyleBatch.Program.Regex

/-!
# Reading regular expressions

Expressions are written in a basic or in an extended form. In the basic form brackets,
braces and bars are text unless a backslash stands in front, in the extended form the other
way around.
-/

namespace StyleBatch.Regex

inductive Token where
  | atom (r : Regex)
  | openGroup
  | closeGroup
  | bar
  /-- A repetition, and the text that it stands for where nothing is to be repeated. -/
  | times (least : Nat) (most : Option Nat) (written : Text)
  | start
  | finish

/-- Why an expression cannot be read, as it is told. -/
inductive Trouble where
  | trailingBackslash
  | openSet
  | openBracket
  | strayBracket
  | openBrace
  | badBraces
  | badRange
  | badClass
  | badClassForm
  | badReference
  | nothingToRepeat
  | tooBig
deriving DecidableEq, Repr

def Trouble.message : Trouble → Text
  | trailingBackslash => "Trailing backslash"
  | openSet => "Unmatched [, [^, [:, [., or [="
  | openBracket => "Unmatched ( or \\("
  | strayBracket => "Unmatched ) or \\)"
  | openBrace => "Unmatched \\\x7b"
  | badBraces => "Invalid content of \\\x7b\\\x7d"
  | badRange => "Invalid range end"
  | badClass => "Invalid character class name"
  | badClassForm => "character class syntax is [[:space:]], not [:space:]"
  | badReference => "Invalid back reference"
  | nothingToRepeat => "Invalid preceding regular expression"
  | tooBig => "Regular expression too big"

/-! ## Sets -/

def classNames : List Text :=
  Text.splitAtEach ' ' "alpha digit alnum upper lower space blank punct print graph cntrl xdigit"

/-- What stands in front of a mark and a bracket that closes. -/
def upToMark? (mark : Char) : Text → Option (Text × Text)
  | [] => none
  | c :: ']' :: rest =>
    if c = mark then some ([], rest)
    else (upToMark? mark (']' :: rest)).map fun (t, rest) => (c :: t, rest)
  | c :: rest => (upToMark? mark rest).map fun (t, rest) => (c :: t, rest)

/-- One end of a range: a character, or one in its own brackets. -/
def setChar : Text → Except Trouble (Char × Text)
  | '[' :: mark :: rest =>
    if mark = '.' ∨ mark = '=' then
      match upToMark? mark rest with
      | some ([c], rest) => .ok (c, rest)
      | some _ => .error .badRange
      | none => .error .openSet
    else .ok ('[', mark :: rest)
  | c :: rest => .ok (c, rest)
  | [] => .error .openSet

/-- The items of a set through its closing bracket, which may come `first` as an item. -/
def setItems : Nat → Bool → Text → Except Trouble (List SetItem × Text)
  | 0, _, _ => .error .openSet
  | _ + 1, _, [] => .error .openSet
  | fuel + 1, first, c :: rest =>
    if c = ']' && !first then .ok ([], rest)
    else do
      let named := match c, rest with
        | '[', ':' :: rest => some rest
        | _, _ => none
      match named with
      | some rest =>
        match upToMark? ':' rest with
        | none => throw .openSet
        | some (name, rest) =>
          if !classNames.contains name then throw .badClass
          let (items, rest) ← setItems fuel false rest
          return (.named name :: items, rest)
      | none =>
        let (low, rest) ← setChar (c :: rest)
        let (high, rest) ← match rest with
          | '-' :: ']' :: _ => pure (low, rest)
          | '-' :: high => setChar high
          | _ => pure (low, rest)
        if high < low then throw .badRange
        let (items, rest) ← setItems fuel false rest
        return (.range low high :: items, rest)

/-- A set behind its opening bracket. -/
def readSet (t : Text) : Except Trouble (Regex × Text) := do
  let (negated, inside) := match t with
    | '^' :: rest => (true, rest)
    | t => (false, t)
  let (items, rest) ← setItems (inside.length + 1) true inside
  let written := inside.take (inside.length - rest.length - 1)
  let likeClass := written.head? == some ':' && written.getLast? == some ':'
  if !negated && written.length > 1 && likeClass then throw .badClassForm
  return (.set negated items, rest)

/-! ## Tokens -/

/-- The greatest number of times. -/
def mostTimes : Nat := 32767

/-- What stands between braces, the first of them gone. -/
def readBraces (extended : Bool) (t : Text) : Except Trouble (Token × Text) :=
  let least := t.takeWhile Char.isDigit
  let rest := t.drop least.length
  let (most?, rest) := match rest with
    | ',' :: rest =>
      let most := rest.takeWhile Char.isDigit
      (some most, rest.drop most.length)
    | rest => (none, rest)
  let number := fun (t : Text) => (Program.number? t).getD 0
  let most := match most? with
    | none => some (number least)
    | some [] => none
    | some most => some (number most)
  let closed := if extended then match rest with
      | '\x7d' :: rest => some rest
      | _ => none
    else match rest with
      | '\\' :: '\x7d' :: rest => some rest
      | _ => none
  match closed with
  | none => .error (if rest.isEmpty then .openBrace else .badBraces)
  | some rest =>
    if least.isEmpty && most?.isNone then .error .badBraces
    else if most.any fun most => most < number least then .error .badBraces
    else if number least > mostTimes || most.any fun most => most > mostTimes then .error .tooBig
    else .ok (.times (number least) most [], rest)

def wordSet (negated : Bool) : Regex :=
  .set negated [.named "alnum", .range '_' '_']

/-- The token of a character behind a backslash. -/
def escaped (extended : Bool) (c : Char) (rest : Text) : Except Trouble (Token × Text) :=
  let plain := fun (r : Regex) => (Except.ok (.atom r, rest) : Except Trouble (Token × Text))
  if !extended && c == '(' then .ok (.openGroup, rest)
  else if !extended && c == ')' then .ok (.closeGroup, rest)
  else if !extended && c == '|' then .ok (.bar, rest)
  else if !extended && c == '\x7b' then readBraces false rest
  else if !extended && c == '+' then .ok (.times 1 none ['+'], rest)
  else if !extended && c == '?' then .ok (.times 0 (some 1) ['?'], rest)
  else if '1' ≤ c && c ≤ '9' then plain (.same (c.toNat - '0'.toNat))
  else if c = 'w' then plain (wordSet false)
  else if c = 'W' then plain (wordSet true)
  else if c = 's' then plain (.set false [.named "space"])
  else if c = 'S' then plain (.set true [.named "space"])
  else if c = 'b' then plain (.edge .word)
  else if c = 'B' then plain (.edge .noWord)
  else if c = '<' then plain (.edge .wordStart)
  else if c = '>' then plain (.edge .wordEnd)
  else if c.toNat = 96 then plain (.edge .textStart)
  else if c = '\x27' then plain (.edge .textEnd)
  else plain (.char c)

/-- The first token and what is behind it; `opens` tells whether an expression begins here. -/
def token (extended opens : Bool) (c : Char) (rest : Text) : Except Trouble (Token × Text) :=
  if c = '\\' then
    match rest with
    | c :: rest => escaped extended c rest
    | [] => .error .trailingBackslash
  else if c = '[' then do
    let (r, rest) ← readSet rest
    return (.atom r, rest)
  else if c = '.' then .ok (.atom .any, rest)
  else if c = '*' then .ok (.times 0 none ['*'], rest)
  else if c = '^' then .ok (if extended || opens then .start else .atom (.char c), rest)
  else if c = '$' then
    let closes := rest.isEmpty || Text.after? "\\)" rest != none || Text.after? "\\|" rest != none
    .ok (if extended || closes then .finish else .atom (.char c), rest)
  else if !extended then .ok (.atom (.char c), rest)
  else if c = '(' then .ok (.openGroup, rest)
  else if c = ')' then .ok (.closeGroup, rest)
  else if c = '|' then .ok (.bar, rest)
  else if c = '+' then .ok (.times 1 none [c], rest)
  else if c = '?' then .ok (.times 0 (some 1) [c], rest)
  else if c = '\x7b' then readBraces true rest
  else .ok (.atom (.char c), rest)

/-- Whether an expression begins behind a token. -/
def Token.opensNext : Token → Bool
  | .openGroup => true
  | .bar => true
  | _ => false

/-- The tokens of an expression. -/
def tokens (extended : Bool) : Nat → Bool → Text → Except Trouble (List Token)
  | 0, _, _ => .ok []
  | _ + 1, _, [] => .ok []
  | fuel + 1, opens, c :: rest => do
    let (t, rest) ← token extended opens c rest
    return t :: (← tokens extended fuel t.opensNext rest)

/-! ## Expressions -/

/-- Applies the repetitions that stand behind an expression. In the basic form a star does not
follow another repetition. -/
def repetitions (extended : Bool) : Bool → Regex → List Token → Except Trouble (Regex × List Token)
  | again, r, .times least most written :: rest =>
    if again && !extended && (written == ['*'] || written.isEmpty) then .error .nothingToRepeat
    else repetitions extended true (r.repeated least most) rest
  | _, r, tokens => .ok (r, tokens)

mutual

/-- An expression up to a bracket that closes; the next group has the number `n`. -/
def alternatives (extended : Bool) : Nat → Nat → List Token →
    Except Trouble (Regex × Nat × List Token)
  | 0, n, tokens => .ok (.empty, n, tokens)
  | fuel + 1, n, tokens => do
    let (first, n, rest) ← sequence extended fuel n tokens
    match rest with
    | .bar :: rest =>
      let (second, n, rest) ← alternatives extended fuel n rest
      return (.either first second, n, rest)
    | rest => return (first, n, rest)

/-- Expressions one behind the other. A repetition in front of them all has nothing to repeat. -/
def sequence (extended : Bool) : Nat → Nat → List Token →
    Except Trouble (Regex × Nat × List Token)
  | 0, n, tokens => .ok (.empty, n, tokens)
  | fuel + 1, n, tokens =>
    let goOn := fun (r : Regex) (n : Nat) (rest : List Token) => do
      let (r, rest) ← repetitions extended false r rest
      let (more, n, rest) ← sequence extended fuel n rest
      return (match more with
        | .empty => r
        | more => .both r more, n, rest)
    match tokens with
    | .atom (.same k) :: rest => if k < n then goOn (.same k) n rest else .error .badReference
    | .atom r :: rest => goOn r n rest
    | .finish :: rest => goOn (.edge .lineEnd) n rest
    | .start :: rest => do
      let (more, n, rest) ← sequence extended fuel n rest
      return (.both (.edge .lineStart) more, n, rest)
    | .openGroup :: rest => do
      let (inner, next, rest) ← alternatives extended fuel (n + 1) rest
      match rest with
      | .closeGroup :: rest => goOn (.group n inner) next rest
      | _ => throw .openBracket
    | .times _ _ written :: rest =>
      if extended || written.isEmpty then .error .nothingToRepeat
      else goOn (written.foldr (fun c r =>
        if r = .empty then .char c else .both (.char c) r) .empty) n rest
    | _ => .ok (.empty, n, tokens)

end

/-- Reads an expression; the number of its groups comes with it. -/
def read (extended : Bool) (t : Text) : Except Trouble (Regex × Nat) := do
  let all ← tokens extended (t.length + 1) true t
  let (r, n, rest) ← alternatives extended (3 * all.length + 3) 1 all
  match rest with
  | [] => return (r, n - 1)
  | _ => throw .strayBracket

end StyleBatch.Regex
