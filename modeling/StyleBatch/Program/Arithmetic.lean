import StyleBatch.Program.Print

/-!
# Arithmetic of scripts

Expressions over integers of 64 bits, which wrap around, with variables that expressions may
set. The operators bind as in C.
-/

namespace StyleBatch

/-- An integer of 64 bits with sign. -/
def wrap64 (n : Int) : Int :=
  Int.bmod n 18446744073709551616

namespace Arithmetic

inductive Token where
  | number (n : Int)
  | name (t : Text)
  | operator (t : Text)
deriving DecidableEq, Repr

inductive Expr where
  | number (n : Int)
  | value (name : Text)
  | unary (operator : Text) (e : Expr)
  | binary (operator : Text) (a b : Expr)
  | both (a b : Expr)
  | either (a b : Expr)
  | choice (condition yes no : Expr)
  | assign (name operator : Text) (e : Expr)
deriving DecidableEq, Repr

/-- Why an expression has no value. -/
inductive Trouble where
  | expectingPrimary
  | expectingEnd
  | expectingBracket
  | expectingColon
  | divisionByZero
  | illegalNumber (t : Text)
deriving DecidableEq, Repr

/-- How the trouble is told, given the expression. -/
def Trouble.message (expression : Text) : Trouble → Text
  | .illegalNumber t => "Illegal number: " ++ t
  | trouble =>
    let what : Text := match trouble with
      | .expectingPrimary => "expecting primary"
      | .expectingEnd => "expecting EOF"
      | .expectingBracket => "expecting ')'"
      | .expectingColon => "expecting ':'"
      | _ => "division by zero"
    "arithmetic expression: " ++ what ++ ": \"" ++ expression ++ "\""

/-! ## Reading -/

/-- Operators, longer ones in front of those that they begin with. -/
def operators : List Text :=
  Text.splitAtEach ' ' "<<= >>= << >> <= >= == != && || += -= *= /= %= &= ^= |=" ++
    Text.splitAtEach ' ' "+ - * / % < > = ! ~ & ^ | ? : ( )"

/-- The tokens of an expression; a character that begins none is a token of its own. -/
def tokens : Nat → Text → List Token
  | 0, _ => []
  | _ + 1, [] => []
  | fuel + 1, c :: rest =>
    if c = ' ' ∨ c = '\t' ∨ c = '\n' then tokens fuel rest
    else if c.isDigit then
      match Program.leadingNumber? (c :: rest) with
      | some (n, rest) => .number (wrap64 n) :: tokens fuel rest
      | none => [.operator [c]]
    else if c.isAlpha || c == '_' then
      let isNameChar := fun (c : Char) => c.isAlphanum || c == '_'
      .name (c :: rest.takeWhile isNameChar) :: tokens fuel (rest.dropWhile isNameChar)
    else
      match operators.find? fun o => o.isPrefixOf (c :: rest) with
      | some o => .operator o :: tokens fuel ((c :: rest).drop o.length)
      | none => .operator [c] :: tokens fuel rest

/-- How tight an operator with two sides binds. -/
def strength? (operator : Text) : Option Nat :=
  let levels : List (List Text) := [["||"], ["&&"], ["|"], ["^"], ["&"], ["==", "!="],
    ["<", ">", "<=", ">="], ["<<", ">>"], ["+", "-"], ["*", "/", "%"]]
  (levels.zipIdx.find? fun (level, _) => level.contains operator).map fun (_, n) => n + 1

def assignments : List Text :=
  ["=", "<<=", ">>=", "+=", "-=", "*=", "/=", "%=", "&=", "^=", "|="]

/-- Joins two sides. -/
def join (operator : Text) (a b : Expr) : Expr :=
  if operator = "&&" then .both a b
  else if operator = "||" then .either a b
  else .binary operator a b

mutual

def primary : Nat → List Token → Except Trouble (Expr × List Token)
  | 0, _ => .error .expectingPrimary
  | fuel + 1, tokens =>
    match tokens with
    | .number n :: rest => .ok (.number n, rest)
    | .name t :: rest => .ok (.value t, rest)
    | .operator o :: rest =>
      if o = "(" then do
        let (e, rest) ← assignment fuel rest
        match rest with
        | .operator [')'] :: rest => return (e, rest)
        | _ => throw .expectingBracket
      else if o = "!" ∨ o = "~" ∨ o = "-" ∨ o = "+" then do
        let (e, rest) ← primary fuel rest
        return (.unary o e, rest)
      else .error .expectingPrimary
    | [] => .error .expectingPrimary

/-- Goes on behind a left side with operators that bind at least so tight. -/
def climb : Nat → Nat → Expr → List Token → Except Trouble (Expr × List Token)
  | 0, _, e, tokens => .ok (e, tokens)
  | fuel + 1, least, left, tokens =>
    match tokens with
    | .operator o :: rest =>
      match strength? o with
      | some n =>
        if n < least then .ok (left, tokens)
        else do
          let (right, rest) ← primary fuel rest
          let (right, rest) ← climb fuel (n + 1) right rest
          climb fuel least (join o left right) rest
      | none => .ok (left, tokens)
    | _ => .ok (left, tokens)

def conditional : Nat → List Token → Except Trouble (Expr × List Token)
  | 0, _ => .error .expectingPrimary
  | fuel + 1, tokens => do
    let (e, rest) ← primary fuel tokens
    let (e, rest) ← climb fuel 1 e rest
    match rest with
    | .operator ['?'] :: rest =>
      let (yes, rest) ← assignment fuel rest
      match rest with
      | .operator [':'] :: rest =>
        let (no, rest) ← conditional fuel rest
        return (.choice e yes no, rest)
      | _ => throw .expectingColon
    | _ => return (e, rest)

def assignment : Nat → List Token → Except Trouble (Expr × List Token)
  | 0, _ => .error .expectingPrimary
  | fuel + 1, tokens =>
    match tokens with
    | .name t :: .operator o :: rest =>
      if assignments.contains o then do
        let (e, rest) ← assignment fuel rest
        return (.assign t (o.take (o.length - 1)) e, rest)
      else conditional fuel tokens
    | _ => conditional fuel tokens

end

/-- Reads an expression; an empty one is zero. -/
def read (t : Text) : Except Trouble Expr := do
  let all := tokens (t.length + 1) t
  if all.isEmpty then return .number 0
  let (e, rest) ← assignment (4 * all.length + 8) all
  if rest.isEmpty then return e else throw .expectingEnd

/-! ## Values -/

/-- A shift or a power of two of 64 bits. -/
def shiftCount (n : Int) : Nat :=
  (n % 64).toNat

/-- The bits of an integer as a natural number. -/
def bits (n : Int) : Nat :=
  (n % 18446744073709551616).toNat

def truth (b : Bool) : Int :=
  if b then 1 else 0

def apply (operator : Text) (a b : Int) : Except Trouble Int :=
  let ok := fun (n : Int) => (Except.ok (wrap64 n) : Except Trouble Int)
  if operator = "+" then ok (a + b)
  else if operator = "-" then ok (a - b)
  else if operator = "*" then ok (a * b)
  else if operator = "/" then if b = 0 then .error .divisionByZero else ok (Int.tdiv a b)
  else if operator = "%" then if b = 0 then .error .divisionByZero else ok (Int.tmod a b)
  else if operator = "<<" then ok (a * ((2 : Nat).pow (shiftCount b) : Nat))
  else if operator = ">>" then ok (Int.fdiv a ((2 : Nat).pow (shiftCount b) : Nat))
  else if operator = "<" then ok (truth (decide (a < b)))
  else if operator = ">" then ok (truth (decide (a > b)))
  else if operator = "<=" then ok (truth (decide (a ≤ b)))
  else if operator = ">=" then ok (truth (decide (a ≥ b)))
  else if operator = "==" then ok (truth (a == b))
  else if operator = "!=" then ok (truth (a != b))
  else if operator = "&" then ok (Nat.land (bits a) (bits b))
  else if operator = "^" then ok (Nat.xor (bits a) (bits b))
  else ok (Nat.lor (bits a) (bits b))

/-- The value of a variable; a missing or empty one is zero. -/
def valueOf (bindings : Variables) (name : Text) : Except Trouble Int :=
  match Table.get? bindings name with
  | none => .ok 0
  | some [] => .ok 0
  | some t =>
    match Program.leadingNumber? t with
    | some (n, rest) => if (rest.all (· == ' ')) then .ok (wrap64 n) else .error (.illegalNumber t)
    | none => .error (.illegalNumber t)

def Expr.eval (bindings : Variables) : Expr → Except Trouble (Int × Variables)
  | .number n => .ok (n, bindings)
  | .value name => do return (← valueOf bindings name, bindings)
  | .unary operator e => do
    let (n, bindings) ← e.eval bindings
    let value := if operator = "!" then truth (n == 0)
      else if operator = "~" then -n - 1
      else if operator = "-" then -n
      else n
    return (wrap64 value, bindings)
  | .binary operator a b => do
    let (m, bindings) ← a.eval bindings
    let (n, bindings) ← b.eval bindings
    return (← apply operator m n, bindings)
  | .both a b => do
    let (m, bindings) ← a.eval bindings
    if m = 0 then return (0, bindings)
    let (n, bindings) ← b.eval bindings
    return (truth (n != 0), bindings)
  | .either a b => do
    let (m, bindings) ← a.eval bindings
    if m ≠ 0 then return (1, bindings)
    let (n, bindings) ← b.eval bindings
    return (truth (n != 0), bindings)
  | .choice condition yes no => do
    let (n, bindings) ← condition.eval bindings
    if n ≠ 0 then yes.eval bindings else no.eval bindings
  | .assign name operator e => do
    let (n, bindings) ← e.eval bindings
    let value ← if operator.isEmpty then pure n
      else do apply operator (← valueOf bindings name) n
    return (value, Table.set bindings name (Text.ofInt value))

/-- The value of an expression and the variables after it. -/
def evaluate (bindings : Variables) (t : Text) : Except Text (Int × Variables) :=
  match read t with
  | .error trouble => .error (trouble.message t)
  | .ok e =>
    match e.eval bindings with
    | .error trouble => .error (trouble.message t)
    | .ok result => .ok result

end Arithmetic

end StyleBatch
