import StyleBatch.Program

/-!
# Options of programs

Arguments that begin with `-` are options: letters, several of which may stand together, or
words behind `--`, which may be cut short. Options may stand behind operands; after `--`
all are operands.
-/

namespace StyleBatch.Program

/-- An option that a program has. -/
structure OptionForm where
  letter : Char
  takesValue : Bool := false
  /-- The word that may stand for the letter. -/
  word : Text := []

/-- Options with their values, in the order in which they were given, and the operands. -/
structure Parsed where
  options : List (Char × Text) := []
  operands : List Text := []

def Parsed.has (p : Parsed) (letter : Char) : Bool :=
  p.options.any fun o => o.1 == letter

/-- The last value of an option. -/
def Parsed.value? (p : Parsed) (letter : Char) : Option Text :=
  (p.options.reverse.find? fun o => o.1 == letter).map Prod.snd

/-- Puts an option in front. -/
def Parsed.push (p : Parsed) (letter : Char) (value : Text) : Parsed :=
  { p with options := (letter, value) :: p.options }

/-- The form that a word stands for; a start of a word will do if only one word has it. -/
def formOf (forms : List OptionForm) (word : Text) : Except Text OptionForm :=
  match forms.find? fun f => f.word == word && !word.isEmpty with
  | some form => .ok form
  | none =>
    match forms.filter fun f => !f.word.isEmpty && word.isPrefixOf f.word with
    | [] => .error (("unrecognized option '--" : Text) ++ word ++ "'")
    | [form] => .ok form
    | several =>
      let names : Text := (several.map fun f => (" '--" ++ f.word ++ "'" : Text)).flatten
      .error (("option '--" : Text) ++ word ++ "' is ambiguous; possibilities:" ++ names)

/-- Options of one argument, given as letters, and whether the last one lacks its value. -/
def lettersOf (forms : List OptionForm) : Text → Except Text (List (Char × Text) × Option Char)
  | [] => .ok ([], none)
  | c :: rest =>
    match forms.find? fun f => f.letter == c with
    | none => .error (("invalid option -- '" : Text) ++ [c] ++ "'")
    | some form =>
      if form.takesValue then
        if rest.isEmpty then .ok ([], some c) else .ok ([(c, rest)], none)
      else (lettersOf forms rest).map fun (options, lacking) => ((c, []) :: options, lacking)

/-- An option that waits for its value, and what is said if none comes. -/
structure Waiting where
  letter : Char
  message : Text

/-- What one argument is: options, of which the last may wait for a value, or an operand. -/
def readArgument (forms : List OptionForm) (argument : Text) :
    Except Text (Option (List (Char × Text) × Option Waiting)) :=
  match argument with
  | '-' :: '-' :: word => do
    let (word, value?) := match Text.cutAt? '=' word with
      | some (word, value) => (word, some value)
      | none => (word, none)
    let form ← formOf forms word
    match form.takesValue, value? with
    | false, none => return some ([(form.letter, [])], none)
    | false, some _ => throw (("option '--" : Text) ++ form.word ++ "' doesn't allow an argument")
    | true, some value => return some ([(form.letter, value)], none)
    | true, none =>
      return some ([], some ⟨form.letter, ("option '--" : Text) ++ form.word ++
        "' requires an argument"⟩)
  | '-' :: c :: letters => do
    let (options, lacking) ← lettersOf forms (c :: letters)
    return some (options, lacking.map fun letter =>
      ⟨letter, ("option requires an argument -- '" : Text) ++ [letter] ++ "'"⟩)
  | _ => return none

/-- Reads arguments, of which the next one may be a value that is waited for; with `first` the
first operand ends the options. -/
def parseFrom (first : Bool) (forms : List OptionForm) :
    Option Waiting → List Text → Except Text Parsed
  | none, [] => .ok {}
  | some waiting, [] => .error waiting.message
  | some waiting, value :: rest => do
    return (← parseFrom first forms none rest).push waiting.letter value
  | none, argument :: rest =>
    if argument = "--" then .ok { operands := rest }
    else do
      match ← readArgument forms argument with
      | some (options, waiting) =>
        let parsed ← parseFrom first forms waiting rest
        return { parsed with options := options ++ parsed.options }
      | none =>
        if first then return { operands := argument :: rest }
        let parsed ← parseFrom first forms none rest
        return { parsed with operands := argument :: parsed.operands }

/-- Reads arguments; with `first` the first operand ends the options. -/
def parseArguments (first : Bool) (forms : List OptionForm) (arguments : List Text) :
    Except Text Parsed :=
  parseFrom first forms none arguments

/-- A program with options; misuse ends it with the given code. -/
def withOptions (misuse : Nat) (forms : List OptionForm) (run : Parsed → Program) : Program :=
  fun p =>
    match parseArguments false forms p.arguments with
    | .ok parsed => run parsed p
    | .error message => p.misuse misuse message

end StyleBatch.Program
