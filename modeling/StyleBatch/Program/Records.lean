import StyleBatch.Program.Regex

/-!
# Scripts over records

A script is a list of rules. Each rule has a pattern that picks records of the input and
a statement that is carried out for them. Expressions hold numbers and texts, and a value
may be taken as either.
-/

namespace StyleBatch.Records

inductive Operator where
  | plus
  | minus
  | times
  | divided
  | modulo
  | power
deriving DecidableEq, Repr

inductive Comparison where
  | less
  | atMost
  | equal
  | differs
  | greater
  | atLeast
deriving DecidableEq, Repr

/-- Where a record is read from besides the input of the script. -/
inductive Origin where
  | input
  | file
  | command
deriving DecidableEq, Repr

inductive Expr where
  | number (x : Float)
  | text (t : Text)
  | regex (r : Regex)
  | name (name : Text)
  | item (array : Text) (subscripts : List Expr)
  | field (index : Expr)
  | assign (target value : Expr)
  | update (operator : Operator) (target value : Expr)
  /-- A step up or down by one, before or behind the use of the value. -/
  | step (up before : Bool) (target : Expr)
  | not (a : Expr)
  | negative (a : Expr)
  | positive (a : Expr)
  | arithmetic (operator : Operator) (a b : Expr)
  | compare (comparison : Comparison) (a b : Expr)
  | join (a b : Expr)
  | match (negated : Bool) (a b : Expr)
  | both (a b : Expr)
  | either (a b : Expr)
  | choice (condition yes no : Expr)
  | contains (array : Text) (subscripts : List Expr)
  | call (function : Text) (arguments : List Expr)
  | builtin (function : Text) (arguments : List Expr)
  | read (origin : Origin) (source : Expr) (target : Expr)

/-- Where a script prints. -/
inductive Target where
  | output
  | file (append : Bool) (name : Expr)
  | command (text : Expr)

inductive Statement where
  | nothing
  | expr (e : Expr)
  | print (items : List Expr) (target : Target)
  | format (items : List Expr) (target : Target)
  | sequence (first second : Statement)
  | choice (condition : Expr) (yes no : Statement)
  /-- A loop that tests its condition before the first round or only behind each. -/
  | loop (testsFirst : Bool) (condition : Expr) (body step : Statement)
  | each (name array : Text) (body : Statement)
  | leaveLoop
  | nextRound
  | nextRecord
  | exit (code : Option Expr)
  | leave (value : Option Expr)
  | delete (array : Text) (subscripts : List Expr)

inductive Pattern where
  | begin
  | finish
  | always
  | when (e : Expr)
  | range (first last : Expr)

structure Rule where
  pattern : Pattern
  body : Statement

structure Function where
  parameters : List Text
  body : Statement

structure Script where
  rules : List Rule := []
  functions : List (Text × Function) := []

/-- Why a script cannot be read, and in which line. -/
structure Trouble where
  line : Nat
  message : Text
deriving DecidableEq, Repr

end StyleBatch.Records
