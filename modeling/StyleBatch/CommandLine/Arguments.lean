import StyleBatch.Table
import StyleBatch.Text

/-!
# Arguments

What a command line asks for. The options `--config`, `--compiler` and `--trace` may stand
before the command's name or behind it, where they count first; each may be given once in
either place. Only `build` has `--output`. After `--` everything is an operand.
-/

namespace StyleBatch

inductive Action where
  | compile (paths : List Text)
  | build (paths : List Text) (output : Option Text)
  | imports (file : Text)
deriving DecidableEq, Repr

/-- The options that every command has. -/
structure Options where
  config : Option Text := none
  compiler : Option Text := none
  trace : Option Text := none
deriving DecidableEq, Repr

structure Request where
  options : Options
  action : Action
deriving DecidableEq, Repr

/-- Why a command line asks for no action. -/
inductive Halt where
  | help
  | version
  | misuse
deriving DecidableEq, Repr

namespace Arguments

/-- The options that take a value. -/
inductive Switch where
  | config
  | compiler
  | trace
  | output
deriving DecidableEq, Repr

inductive Verb where
  | compile
  | build
  | imports
deriving DecidableEq, Repr

/-- What has been read on one side of the command's name. -/
structure Given where
  values : Table Switch Text := []
  operands : List Text := []
deriving DecidableEq, Repr

def verb? (name : Text) : Option Verb :=
  if name = "compile" then some .compile
  else if name = "build" then some .build
  else if name = "imports" then some .imports
  else none

/-- The option of a name. `verb` is the command, behind its name. -/
def switch? (verb : Option Verb) (name : Text) : Option Switch :=
  if name = "config" then some .config
  else if name = "compiler" then some .compiler
  else if name = "trace" then some .trace
  else if name = "output" ∧ verb = some .build then some .output
  else none

/-- Gives an option its value. Paths may not be empty, and no option is given twice. -/
def assign (switch : Switch) (value : Text) (given : Given) : Except Halt Given :=
  if Table.has given.values switch || (value.isEmpty && switch != .compiler) then .error .misuse
  else .ok { given with values := Table.set given.values switch value }

/-- Whether an argument reads as options; a lone hyphen does not. -/
def isOption (argument : Text) : Bool :=
  match argument with
  | '-' :: _ :: _ => true
  | _ => false

/-- An option with a long name, given behind its hyphens: the option itself where its value is
the next argument. -/
def long (verb : Option Verb) (t : Text) (given : Given) : Except Halt (Given × Option Switch) :=
  let (name, value) := match Text.cutAt? '=' t with
    | some (name, value) => (name, some value)
    | none => (t, none)
  match switch? verb name, value with
  | some switch, some value => (assign switch value given).map fun given => (given, none)
  | some switch, none =>
    if Table.has given.values switch then .error .misuse else .ok (given, some switch)
  | none, none =>
    if name = "help" then .error .help
    else if name = "version" ∧ verb = none then .error .version
    else .error .misuse
  | none, some _ => .error .misuse

/-- An option with a letter, given behind its hyphen. -/
def short (verb : Option Verb) (t : Text) (given : Given) : Except Halt (Given × Option Switch) :=
  match t with
  | 'h' :: _ => .error .help
  | 'V' :: _ => if verb = none then .error .version else .error .misuse
  | 'o' :: value =>
    if verb = some .build then
      match value with
      | [] => if Table.has given.values .output then .error .misuse else .ok (given, some .output)
      | '=' :: value => (assign .output value given).map fun given => (given, none)
      | value => (assign .output value given).map fun given => (given, none)
    else .error .misuse
  | _ => .error .misuse

def option (verb : Option Verb) (argument : Text) (given : Given) :
    Except Halt (Given × Option Switch) :=
  match argument with
  | '-' :: '-' :: name => long verb name given
  | '-' :: letters => short verb letters given
  | _ => .error .misuse

/-- The arguments before the command's name, the name and what follows it. `pending` is an
option whose value comes next. -/
def front (given : Given) (pending : Option Switch) :
    List Text → Except Halt (Given × Text × List Text)
  | [] => .error .misuse
  | argument :: rest =>
    match pending with
    | some switch =>
      if isOption argument then .error .misuse
      else (assign switch argument given).bind fun given => front given none rest
    | none =>
      if argument = "--" then .error .misuse
      else if isOption argument then
        (option none argument given).bind fun (given, pending) => front given pending rest
      else .ok (given, argument, rest)

/-- An operand; `imports` takes one only. -/
def operand (verb : Verb) (argument : Text) (given : Given) : Except Halt Given :=
  if argument.isEmpty || (verb == .imports && !given.operands.isEmpty) then .error .misuse
  else .ok { given with operands := given.operands ++ [argument] }

/-- The arguments behind the command's name. -/
def behind (verb : Verb) (given : Given) (pending : Option Switch) :
    List Text → Except Halt Given
  | [] => if pending.isSome then .error .misuse else .ok given
  | argument :: rest =>
    match pending with
    | some switch =>
      if isOption argument then .error .misuse
      else (assign switch argument given).bind fun given => behind verb given none rest
    | none =>
      if argument = "--" then rest.foldlM (fun given argument => operand verb argument given) given
      else if isOption argument then
        (option (some verb) argument given).bind fun (given, pending) =>
          behind verb given pending rest
      else (operand verb argument given).bind fun given => behind verb given none rest

/-- The value of an option, behind the command's name if it is there. -/
def value? (switch : Switch) (front behind : Given) : Option Text :=
  (Table.get? behind.values switch).orElse fun _ => Table.get? front.values switch

/-- The action of a command with what stands behind its name. -/
def action? (given : Given) : Verb → Option Action
  | .compile => if given.operands.isEmpty then none else some (.compile given.operands)
  | .build =>
    if given.operands.isEmpty then none
    else some (.build given.operands (Table.get? given.values .output))
  | .imports => given.operands.head?.map .imports

/-- Asks for help on all commands or on one. -/
def isHelp (name : Text) (rest : List Text) : Bool :=
  name == "help".toList && match rest with
    | [] => true
    | [name] => (verb? name).isSome || name == "help".toList
    | _ => false

/-- What a command line asks for. -/
def read (arguments : List Text) : Except Halt Request := do
  let (before, name, rest) ← front {} none arguments
  match verb? name with
  | none => if isHelp name rest then .error .help else .error .misuse
  | some verb =>
    let given ← behind verb {} none rest
    match action? given verb with
    | none => .error .misuse
    | some action =>
      return ⟨⟨value? .config before given, value? .compiler before given,
        value? .trace before given⟩, action⟩

end Arguments

end StyleBatch
