import StyleBatch.Program.Records.Token

/-!
# Reading scripts over records

From loose to tight: assignments, choices, `||`, `&&`, `in`, matches, comparisons, texts that
stand side by side, sums, products, signs, powers, steps, and single values. While `>` names
a file it compares nothing.
-/

namespace StyleBatch.Records

/-- Reads tokens from a list of them. -/
abbrev Reading := StateT (List Token) (Except (List Trouble))

namespace Reading

def peek : Reading Shape := do
  match ← get with
  | token :: _ => return token.shape
  | [] => return .finish

def advance : Reading Unit :=
  modify List.tail

/-- The trouble with the token that stands here. -/
def unexpected {α : Type} : Reading α := do
  match ← get with
  | token :: _ =>
    let message := match token.shape with
      | .finish => token.written
      | .lineBreak => "syntax error at or near end of line"
      | _ => "syntax error at or near " ++ token.written
    throw [⟨token.line, message⟩]
  | [] => throw []

def isMark (t : Text) : Reading Bool := do
  match ← peek with
  | .mark m => return m == t
  | _ => return false

def isKeyword (t : Text) : Reading Bool := do
  match ← peek with
  | .keyword k => return k == t
  | _ => return false

/-- Takes a mark if it stands here. -/
def accept (t : Text) : Reading Bool := do
  if ← isMark t then
    advance
    return true
  else return false

def expect (t : Text) : Reading Unit := do
  if !(← accept t) then unexpected

def acceptKeyword (t : Text) : Reading Bool := do
  if ← isKeyword t then
    advance
    return true
  else return false

def expectName : Reading Text := do
  match ← peek with
  | .name name =>
    advance
    return name
  | _ => unexpected

/-- Whether a line break or another end of a statement stands here. -/
def isBreak (shape : Shape) : Bool :=
  match shape with
  | .lineBreak => true
  | .mark [';'] => true
  | _ => false

/-- Passes over line breaks. -/
def skipLines : Reading Unit :=
  modify fun tokens => tokens.dropWhile fun token => token.shape matches .lineBreak

/-- Passes over ends of statements. -/
def skipBreaks : Reading Unit :=
  modify fun tokens => tokens.dropWhile fun token => isBreak token.shape

/-- Whether what follows can begin a value that stands beside another one. -/
def beginsValue : Shape → Bool
  | .number _ => true
  | .text _ => true
  | .regex _ _ => true
  | .name _ => true
  | .function _ => true
  | .builtin _ => true
  | .mark t => t == (['('] : Text) || t == ['$'] || t == ['!'] || t == ("++" : Text) ||
      t == ("--" : Text)
  | _ => false

def isTarget : Expr → Bool
  | .name _ => true
  | .item _ _ => true
  | .field _ => true
  | _ => false

def comparison? : Shape → Option Comparison
  | .mark ['<'] => some .less
  | .mark ['<', '='] => some .atMost
  | .mark ['=', '='] => some .equal
  | .mark ['!', '='] => some .differs
  | .mark ['>'] => some .greater
  | .mark ['>', '='] => some .atLeast
  | _ => none

def update? : Shape → Option Operator
  | .mark ['+', '='] => some .plus
  | .mark ['-', '='] => some .minus
  | .mark ['*', '='] => some .times
  | .mark ['/', '='] => some .divided
  | .mark ['%', '='] => some .modulo
  | .mark ['^', '='] => some .power
  | _ => none

/-! ## Expressions -/

mutual

/-- An expression; `plain` keeps `>` out of it. -/
def expression (fuel : Nat) (plain : Bool) : Reading Expr :=
  match fuel with
  | 0 => unexpected
  | fuel + 1 => do
    let condition ← eitherOf fuel plain
    if ← accept "?" then
      skipLines
      let yes ← expression fuel plain
      skipLines
      expect ":"
      skipLines
      return .choice condition yes (← expression fuel plain)
    else if isTarget condition then
      let shape ← peek
      if ← accept "=" then
        skipLines
        return .assign condition (← expression fuel plain)
      else match update? shape with
        | some operator =>
          advance
          skipLines
          return .update operator condition (← expression fuel plain)
        | none => return condition
    else return condition

def eitherOf (fuel : Nat) (plain : Bool) : Reading Expr :=
  match fuel with
  | 0 => unexpected
  | fuel + 1 => do
    let first ← bothOf fuel plain
    if ← accept "||" then
      skipLines
      return .either first (← eitherOf fuel plain)
    else return first

def bothOf (fuel : Nat) (plain : Bool) : Reading Expr :=
  match fuel with
  | 0 => unexpected
  | fuel + 1 => do
    let first ← membership fuel plain
    if ← accept "&&" then
      skipLines
      return .both first (← bothOf fuel plain)
    else return first

def membership (fuel : Nat) (plain : Bool) : Reading Expr :=
  match fuel with
  | 0 => unexpected
  | fuel + 1 => do
    let first ← matching fuel plain
    if ← acceptKeyword "in" then return .contains (← expectName) [first] else return first

def matching (fuel : Nat) (plain : Bool) : Reading Expr :=
  match fuel with
  | 0 => unexpected
  | fuel + 1 => do
    let first ← comparing fuel plain
    if ← accept "~" then return .match false first (← comparing fuel plain)
    else if ← accept "!~" then return .match true first (← comparing fuel plain)
    else return first

def comparing (fuel : Nat) (plain : Bool) : Reading Expr :=
  match fuel with
  | 0 => unexpected
  | fuel + 1 => do
    let first ← joining fuel
    match comparison? (← peek) with
    | some comparison =>
      if plain && comparison == .greater then return first
      else
        advance
        return .compare comparison first (← joining fuel)
    | none => return first

def joining (fuel : Nat) : Reading Expr :=
  match fuel with
  | 0 => unexpected
  | fuel + 1 => do joinRest fuel (← sum fuel)

def joinRest (fuel : Nat) (first : Expr) : Reading Expr :=
  match fuel with
  | 0 => unexpected
  | fuel + 1 => do
    if beginsValue (← peek) then joinRest fuel (.join first (← sum fuel)) else return first

def sum (fuel : Nat) : Reading Expr :=
  match fuel with
  | 0 => unexpected
  | fuel + 1 => do sumRest fuel (← product fuel)

def sumRest (fuel : Nat) (first : Expr) : Reading Expr :=
  match fuel with
  | 0 => unexpected
  | fuel + 1 => do
    if ← accept "+" then sumRest fuel (.arithmetic .plus first (← product fuel))
    else if ← accept "-" then sumRest fuel (.arithmetic .minus first (← product fuel))
    else return first

def product (fuel : Nat) : Reading Expr :=
  match fuel with
  | 0 => unexpected
  | fuel + 1 => do productRest fuel (← signed fuel)

def productRest (fuel : Nat) (first : Expr) : Reading Expr :=
  match fuel with
  | 0 => unexpected
  | fuel + 1 => do
    if ← accept "*" then productRest fuel (.arithmetic .times first (← signed fuel))
    else if ← accept "/" then productRest fuel (.arithmetic .divided first (← signed fuel))
    else if ← accept "%" then productRest fuel (.arithmetic .modulo first (← signed fuel))
    else return first

def signed (fuel : Nat) : Reading Expr :=
  match fuel with
  | 0 => unexpected
  | fuel + 1 => do
    if ← accept "!" then return .not (← signed fuel)
    else if ← accept "-" then return .negative (← signed fuel)
    else if ← accept "+" then return .positive (← signed fuel)
    else
      let base ← stepped fuel
      if ← accept "^" then return .arithmetic .power base (← signed fuel) else return base

/-- A value with steps and records that are read from a command. -/
def stepped (fuel : Nat) : Reading Expr :=
  match fuel with
  | 0 => unexpected
  | fuel + 1 => do
    let value ← single fuel
    let value ← if isTarget value then do
        if ← accept "++" then pure (Expr.step true false value)
        else if ← accept "--" then pure (Expr.step false false value)
        else pure value
      else pure value
    readRest fuel value

def readRest (fuel : Nat) (value : Expr) : Reading Expr :=
  match fuel with
  | 0 => unexpected
  | fuel + 1 => do
    match ← get with
    | ⟨_, .mark ['|'], _⟩ :: ⟨_, .keyword k, _⟩ :: rest =>
      if k = "getline" then
        set rest
        readRest fuel (.read .command value (← readTarget fuel))
      else return value
    | _ => return value

/-- What a record is read into; without anything it becomes the current one. -/
def readTarget (fuel : Nat) : Reading Expr :=
  match fuel with
  | 0 => unexpected
  | fuel + 1 => do
    match ← peek with
    | .name _ => single fuel
    | .mark ['$'] => single fuel
    | _ => return .field (.number 0)

/-- The values within brackets. -/
def arguments (fuel : Nat) : Reading (List Expr) :=
  match fuel with
  | 0 => unexpected
  | fuel + 1 => do
    skipLines
    let first ← expression fuel false
    skipLines
    if ← accept "," then return first :: (← arguments fuel) else return [first]

/-- The values of a call through its closing bracket. -/
def callArguments (fuel : Nat) : Reading (List Expr) :=
  match fuel with
  | 0 => unexpected
  | fuel + 1 => do
    skipLines
    if ← accept ")" then return []
    let all ← arguments fuel
    expect ")"
    return all

def single (fuel : Nat) : Reading Expr :=
  match fuel with
  | 0 => unexpected
  | fuel + 1 => do
    match ← peek with
    | .number x => do
      advance
      return .number x
    | .text t => do
      advance
      return .text t
    | .regex r _ => do
      advance
      return .regex r
    | .name name => do
      advance
      if ← accept "[" then
        let subscripts ← arguments fuel
        expect "]"
        return .item name subscripts
      else return .name name
    | .function name => do
      advance
      advance
      return .call name (← callArguments fuel)
    | .builtin name => do
      advance
      if ← accept "(" then return .builtin name (← callArguments fuel)
      else if name = "length" then return .builtin name []
      else unexpected
    | .mark m =>
      if m = "(" then do
        advance
        match ← arguments fuel with
        | [] => unexpected
        | [e] => do
          expect ")"
          return e
        | several => do
          expect ")"
          if ← acceptKeyword "in" then return .contains (← expectName) several else unexpected
      else if m = "$" then do
        advance
        if ← accept "++" then return .field (.step true true (← single fuel))
        else if ← accept "--" then return .field (.step false true (← single fuel))
        else if ← accept "-" then return .field (.negative (← single fuel))
        else return .field (← single fuel)
      else if m = "++" ∨ m = "--" then do
        advance
        let target ← single fuel
        if isTarget target then return .step (m = "++") true target else unexpected
      else unexpected
    | .keyword k =>
      if k = "getline" then do
        advance
        let target ← readTarget fuel
        if ← accept "<" then return .read .file (← stepped fuel) target
        else return .read .input (.text []) target
      else unexpected
    | _ => unexpected

end

/-! ## Statements -/

/-- Ends a statement of its own. -/
def endStatement : Reading Unit := do
  let shape ← peek
  if isBreak shape then advance
  else match shape with
    | .mark ['\x7d'] => return
    | .finish => return
    | _ => unexpected

/-- Whether a statement ends here. -/
def atEnd : Reading Bool := do
  let shape ← peek
  return isBreak shape || (shape matches .mark ['\x7d']) || (shape matches .finish)

/-- Expressions with commas between them, in which `>` compares nothing. -/
def plainList : Nat → Reading (List Expr)
  | 0 => unexpected
  | fuel + 1 => do
    let first ← expression fuel true
    if ← accept "," then
      skipLines
      return first :: (← plainList fuel)
    else return [first]

/-- Where something is printed. -/
def printTarget (fuel : Nat) : Reading Target := do
  if ← accept ">" then return .file false (← joining fuel)
  else if ← accept ">>" then return .file true (← joining fuel)
  else if ← accept "|" then return .command (← joining fuel)
  else return .output

/-- What is printed, which may stand in brackets as a whole. -/
def printed (fuel : Nat) : Reading (List Expr × Target) := do
  let before ← get
  let bracketed ← if ← accept "(" then do
      let items ← callArguments fuel
      if (← atEnd) || (← isMark ">") || (← isMark ">>") || (← isMark "|") then pure (some items)
      else pure none
    else pure none
  match bracketed with
  | some items => return (items, ← printTarget fuel)
  | none =>
    set before
    let ends := (← atEnd) || (← isMark ">") || (← isMark ">>") || (← isMark "|")
    let items ← if ends then pure [] else plainList fuel
    return (items, ← printTarget fuel)

/-- A statement that holds no other ones. -/
def simple (fuel : Nat) : Reading Statement := do
  let value? : Reading (Option Expr) := do
    if ← atEnd then return none else return some (← expression fuel false)
  if ← acceptKeyword "print" then
    let (items, target) ← printed fuel
    return .print items target
  else if ← acceptKeyword "printf" then
    let (items, target) ← printed fuel
    return .format items target
  else if ← acceptKeyword "next" then return .nextRecord
  else if ← acceptKeyword "break" then return .leaveLoop
  else if ← acceptKeyword "continue" then return .nextRound
  else if ← acceptKeyword "exit" then return .exit (← value?)
  else if ← acceptKeyword "return" then return .leave (← value?)
  else if ← acceptKeyword "delete" then
    let array ← expectName
    if ← accept "[" then
      let subscripts ← arguments fuel
      expect "]"
      return .delete array subscripts
    else return .delete array []
  else return .expr (← expression fuel false)

mutual

def statement : Nat → Reading Statement
  | 0 => unexpected
  | fuel + 1 => do
    if ← isMark "\x7b" then block fuel
    else if ← accept ";" then return .nothing
    else if ← acceptKeyword "if" then
      let condition ← condition fuel
      let yes ← statement fuel
      let before ← get
      skipBreaks
      if ← acceptKeyword "else" then
        skipLines
        return .choice condition yes (← statement fuel)
      else
        set before
        return .choice condition yes .nothing
    else if ← acceptKeyword "while" then
      let condition ← condition fuel
      return .loop true condition (← statement fuel) .nothing
    else if ← acceptKeyword "do" then
      skipLines
      let body ← statement fuel
      skipBreaks
      if !(← acceptKeyword "while") then unexpected
      expect "("
      let condition ← expression fuel false
      expect ")"
      endStatement
      return .loop false condition body .nothing
    else if ← acceptKeyword "for" then
      expect "("
      match ← get with
      | ⟨_, .name name, _⟩ :: ⟨_, .keyword k, _⟩ :: ⟨_, .name array, _⟩ ::
          ⟨_, .mark [')'], _⟩ :: rest =>
        if k = "in" then
          set rest
          skipLines
          return .each name array (← statement fuel)
        else unexpected
      | _ =>
        let first ← part fuel ";"
        skipLines
        let condition ← if ← accept ";" then pure (Expr.number 1)
          else do
            let e ← expression fuel false
            expect ";"
            pure e
        skipLines
        let step ← part fuel ")"
        skipLines
        return .sequence first (.loop true condition (← statement fuel) step)
    else
      let s ← simple fuel
      endStatement
      return s

/-- A condition in brackets. -/
def condition : Nat → Reading Expr
  | 0 => unexpected
  | fuel + 1 => do
    expect "("
    let e ← expression fuel false
    expect ")"
    skipLines
    return e

/-- A part of a loop's head through the mark that ends it. -/
def part : Nat → Text → Reading Statement
  | 0, _ => unexpected
  | fuel + 1, ending => do
    if ← accept ending then return .nothing
    let s ← simple fuel
    expect ending
    return s

def block : Nat → Reading Statement
  | 0 => unexpected
  | fuel + 1 => do
    expect "\x7b"
    blockRest fuel

/-- The statements of a block through its closing brace. -/
def blockRest : Nat → Reading Statement
  | 0 => unexpected
  | fuel + 1 => do
    skipBreaks
    if ← accept "\x7d" then return .nothing
    let first ← statement fuel
    return .sequence first (← blockRest fuel)

end

/-! ## Scripts -/

/-- The names of parameters through the closing bracket. -/
def parameters : Nat → Reading (List Text)
  | 0 => unexpected
  | fuel + 1 => do
    if ← accept ")" then return []
    let name ← expectName
    if ← accept "," then
      skipLines
      return name :: (← parameters fuel)
    else
      expect ")"
      return [name]

/-- What is done for a pattern without a statement: the record is printed. -/
def bodyOf (fuel : Nat) : Reading Statement := do
  if ← isMark "\x7b" then block fuel else return .print [] .output

/-- A rule or a function, added to a script. -/
def part? (fuel : Nat) (script : Script) : Reading Script := do
  let withRule := fun (pattern : Pattern) (body : Statement) =>
    { script with rules := script.rules ++ [⟨pattern, body⟩] }
  if ← acceptKeyword "BEGIN" then return withRule .begin (← block fuel)
  else if ← acceptKeyword "END" then return withRule .finish (← block fuel)
  else if ← acceptKeyword "function" then
    let name ← match ← peek with
      | .function name => pure name
      | .name name => pure name
      | _ => unexpected
    advance
    expect "("
    let names ← parameters fuel
    skipLines
    let body ← block fuel
    return { script with functions := script.functions ++ [(name, ⟨names, body⟩)] }
  else if ← isMark "\x7b" then return withRule .always (← block fuel)
  else
    let first ← expression fuel false
    if ← accept "," then
      skipLines
      let last ← expression fuel false
      return withRule (.range first last) (← bodyOf fuel)
    else return withRule (.when first) (← bodyOf fuel)

def script (fuel : Nat) : Nat → Script → Reading Script
  | 0, _ => unexpected
  | parts + 1, read => do
    skipBreaks
    match ← peek with
    | .finish => return read
    | .mark ['\x7d'] =>
      let line := ((← get).head?.map Token.line).getD 1
      throw [⟨line, "extra '\x7d'"⟩, ⟨line, "syntax error at or near end of line"⟩]
    | _ => script fuel parts (← part? fuel read)

end Reading

/-- The calls of functions that a script lacks. -/
def unknownCalls (all : List Token) (script : Script) : List Trouble :=
  let line := (all.getLast?.map Token.line).getD 1
  all.filterMap fun token => match token.shape with
    | .function name =>
      if (script.functions.map Prod.fst).contains name then none
      else some ⟨line, "function " ++ name ++ " never defined"⟩
    | _ => none

/-- Reads a script. -/
def Script.read (t : Text) : Except (List Trouble) Script := do
  let all ← tokens t
  let (script, _) ← (Reading.script (20 * all.length + 40) (all.length + 1) {}).run all
  match unknownCalls all script with
  | [] => return script
  | troubles => throw troubles

end StyleBatch.Records
