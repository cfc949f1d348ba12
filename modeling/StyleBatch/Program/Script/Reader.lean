import StyleBatch.Program.Script.Token

/-!
# Reading scripts

How tokens are read as commands. A script is read line by line: what stands in front of the
line that cannot be read is run all the same.
-/

namespace StyleBatch.Script

def keywords : List Text :=
  Text.splitAtEach ' ' "! case do done elif else esac fi for if in then until while \x7b \x7d"

/-- The keyword in front. -/
def keyword? : List Token → Option Text
  | ⟨_, .word w⟩ :: _ => (plain? w).filter fun t => keywords.contains t
  | _ => none

/-- What a token is called in reports. -/
def Shape.describe (shape : Shape) : Text :=
  match shape with
  | .word w =>
    match (plain? w).filter fun t => keywords.contains t with
    | some keyword => '"' :: keyword ++ ['"']
    | none => "word"
  | .mark t => '"' :: t ++ ['"']
  | .lineBreak => "newline"
  | .redirection .. => "redirection"
  | .finish => "end of file"
  | .broken message => message

/-- The trouble with the token in front. -/
def unexpected (expecting : Text) : List Token → Trouble
  | ⟨line, .broken message⟩ :: _ => ⟨line, message⟩
  | ⟨line, shape⟩ :: _ =>
    ⟨line, shape.describe ++ " unexpected" ++
      (if expecting.isEmpty then ([] : Text) else " (expecting " ++ expecting ++ ")")⟩
  | [] => ⟨1, "end of file unexpected"⟩

/-- What follows a keyword that has to be there. -/
def expectKeyword (keyword : Text) (tokens : List Token) : Except Trouble (List Token) :=
  if keyword? tokens = some keyword then .ok tokens.tail
  else .error (unexpected ('"' :: keyword ++ ['"']) tokens)

/-- What follows a mark that has to be there. -/
def expectMark (mark : Text) (tokens : List Token) : Except Trouble (List Token) :=
  match tokens with
  | ⟨line, .mark t⟩ :: rest =>
    if t = mark then .ok rest
    else .error (unexpected ('"' :: mark ++ ['"']) (⟨line, .mark t⟩ :: rest))
  | tokens => .error (unexpected ('"' :: mark ++ ['"']) tokens)

def skipBreaks : List Token → List Token
  | ⟨_, .lineBreak⟩ :: rest => skipBreaks rest
  | tokens => tokens

def lineOf : List Token → Nat
  | token :: _ => token.line
  | [] => 1

/-- Keywords and marks that end a list of commands. -/
def endsList (tokens : List Token) : Bool :=
  match tokens with
  | ⟨_, .mark t⟩ :: _ => t == [')'] || t == [';', ';']
  | ⟨_, .finish⟩ :: _ => true
  | tokens =>
    match keyword? tokens with
    | some t => ["do", "done", "elif", "else", "esac", "fi", "then", "\x7d"].any
        fun (k : String) => t == k.toList
    | none => false

/-- An assignment in front of a command. -/
def assignment? (w : Word) : Option (Text × Word) :=
  let name := w.takeWhile fun piece => match piece with
    | .text [c] false => isNameChar c
    | _ => false
  match w.drop name.length with
  | .text ['='] false :: value =>
    match plain? name with
    | some name => if isName name then some (name, value) else none
    | none => none
  | _ => none

/-- The redirections that stand here. -/
def redirections : List Token → Except Trouble (List Redirection × List Token)
  | ⟨_, .redirection stream direction⟩ :: ⟨_, .word target⟩ :: rest => do
    let (more, rest) ← redirections rest
    return (⟨stream, direction, target⟩ :: more, rest)
  | ⟨_, .redirection ..⟩ :: rest => throw (unexpected [] rest)
  | tokens => .ok ([], tokens)

/-- What a simple command is made of. -/
structure Parts where
  assignments : List (Text × Word) := []
  words : List Word := []
  redirections : List Redirection := []

/-- Goes on with the parts of a simple command. -/
def simpleParts (parts : Parts) : List Token → Except Trouble (Parts × List Token)
  | ⟨_, .word w⟩ :: rest =>
    match (if parts.words.isEmpty then assignment? w else none) with
    | some assignment =>
      simpleParts { parts with assignments := parts.assignments ++ [assignment] } rest
    | none => simpleParts { parts with words := parts.words ++ [w] } rest
  | ⟨_, .redirection stream direction⟩ :: ⟨_, .word target⟩ :: rest =>
    simpleParts { parts with redirections := parts.redirections ++ [⟨stream, direction, target⟩] }
      rest
  | ⟨_, .redirection ..⟩ :: rest => throw (unexpected [] rest)
  | tokens => .ok (parts, tokens)

def simpleCommand (line : Nat) (tokens : List Token) : Except Trouble (Command × List Token) := do
  let (parts, rest) ← simpleParts {} tokens
  return (.simple line parts.assignments parts.words parts.redirections, rest)

/-- Commands of the script itself that end it when they fail; no function has their names. -/
def specialNames : List Text :=
  Text.splitAtEach ' '
    ": . break continue eval exec exit export readonly return set shift times trap unset"

/-- The words behind `in`, or nothing where there is none. -/
def loopWords : List Token → Except Trouble (List Word × List Token)
  | ⟨_, .word w⟩ :: rest => do
    let (words, rest) ← loopWords rest
    return (w :: words, rest)
  | ⟨_, .lineBreak⟩ :: rest => .ok ([], rest)
  | ⟨_, .mark [';']⟩ :: rest => .ok ([], rest)
  | tokens => .error (unexpected [] tokens)

/-- What follows the bracket behind the patterns of an arm, where keywords are mere words. -/
def closePatterns (tokens : List Token) : Except Trouble (List Token) :=
  match tokens with
  | ⟨line, .word _⟩ :: _ => .error ⟨line, "word unexpected (expecting \")\")"⟩
  | tokens => expectMark [')'] tokens

/-- The patterns of an arm through their closing bracket. -/
def armPatterns : List Token → Except Trouble (List Word × List Token)
  | ⟨_, .word w⟩ :: ⟨_, .mark ['|']⟩ :: rest => do
    let (words, rest) ← armPatterns rest
    return (w :: words, rest)
  | ⟨_, .word w⟩ :: rest => do return ([w], ← closePatterns rest)
  | ⟨line, .finish⟩ :: rest => .error (unexpected "\")\"" (⟨line, .finish⟩ :: rest))
  | _ :: rest => do return ([], ← closePatterns rest)
  | [] => .error (unexpected [] [])

mutual

/-- Commands up to a token that ends a list. Unless `mayBeEmpty`, there has to be one. -/
def list : Nat → Bool → List Token → Except Trouble (Command × List Token)
  | 0, _, tokens => .error (unexpected [] tokens)
  | fuel + 1, mayBeEmpty, tokens => do
    let tokens := skipBreaks tokens
    match tokens with
    | ⟨_, .finish⟩ :: _ => return (.nothing, tokens)
    | _ =>
      if mayBeEmpty && endsList tokens then return (.nothing, tokens)
      let (first, rest) ← chain fuel tokens
      match rest with
      | ⟨_, .mark ['&']⟩ :: rest =>
        let (second, rest) ← list fuel true rest
        return (.sequence (.background first) second, rest)
      | ⟨_, .mark [';']⟩ :: rest =>
        let (second, rest) ← list fuel true rest
        return (.sequence first second, rest)
      | ⟨_, .lineBreak⟩ :: _ =>
        let (second, rest) ← list fuel true rest
        return (.sequence first second, rest)
      | _ => return (first, rest)

/-- Pipes with `&&` and `||` between them, which group to the left. -/
def chain : Nat → List Token → Except Trouble (Command × List Token)
  | 0, tokens => .error (unexpected [] tokens)
  | fuel + 1, tokens => do
    let (first, rest) ← pipe fuel tokens
    chainRest fuel first rest

def chainRest : Nat → Command → List Token → Except Trouble (Command × List Token)
  | 0, first, tokens => .ok (first, tokens)
  | fuel + 1, first, tokens =>
    match tokens with
    | ⟨_, .mark ['&', '&']⟩ :: rest => do
      let (second, rest) ← pipe fuel (skipBreaks rest)
      chainRest fuel (.both first second) rest
    | ⟨_, .mark ['|', '|']⟩ :: rest => do
      let (second, rest) ← pipe fuel (skipBreaks rest)
      chainRest fuel (.either first second) rest
    | _ => .ok (first, tokens)

/-- Commands with pipes between them, which may be negated as a whole. -/
def pipe : Nat → List Token → Except Trouble (Command × List Token)
  | 0, tokens => .error (unexpected [] tokens)
  | fuel + 1, tokens =>
    if keyword? tokens = some ['!'] then do
      let (first, rest) ← command fuel tokens.tail
      let (whole, rest) ← pipeRest fuel first rest
      return (.negated whole, rest)
    else do
      let (first, rest) ← command fuel tokens
      pipeRest fuel first rest

def pipeRest : Nat → Command → List Token → Except Trouble (Command × List Token)
  | 0, first, tokens => .ok (first, tokens)
  | fuel + 1, first, tokens =>
    match tokens with
    | ⟨_, .mark ['|']⟩ :: rest => do
      let (second, rest) ← command fuel (skipBreaks rest)
      let (second, rest) ← pipeRest fuel second rest
      return (.pipe first second, rest)
    | _ => .ok (first, tokens)

/-- One command. -/
def command : Nat → List Token → Except Trouble (Command × List Token)
  | 0, tokens => .error (unexpected [] tokens)
  | fuel + 1, tokens => do
    let line := lineOf tokens
    let finished := fun (inner : Command) (rest : List Token) => do
      let (rs, rest) ← redirections rest
      return (if rs.isEmpty then inner else .redirected line inner rs, rest)
    match tokens, keyword? tokens with
    | ⟨_, .mark ['(']⟩ :: rest, _ =>
      let (inner, rest) ← list fuel false rest
      finished (.apart inner) (← expectMark [')'] rest)
    | ⟨_, .word w⟩ :: rest, none =>
      match rest, assignment? w with
      | ⟨_, .mark ['(']⟩ :: rest, none =>
        let rest ← expectMark [')'] rest
        match plain? w with
        | some name =>
          if isName name && !specialNames.contains name then
            let (body, rest) ← command fuel (skipBreaks rest)
            return (.define name body, rest)
          else throw ⟨lineOf rest, "Bad function name"⟩
        | none => throw ⟨lineOf rest, "Bad function name"⟩
      | _, _ => simpleCommand line tokens
    | ⟨_, .redirection ..⟩ :: _, _ => simpleCommand line tokens
    | _ :: rest, some keyword =>
      if keyword = "if" then
        let (inner, rest) ← choice fuel rest
        finished inner rest
      else if keyword = "while" ∨ keyword = "until" then
        let (condition, rest) ← list fuel false rest
        let (body, rest) ← list fuel false (← expectKeyword "do" rest)
        finished (.loop (keyword = "until") condition body) (← expectKeyword "done" rest)
      else if keyword = "for" then
        let (inner, rest) ← each fuel line rest
        finished inner rest
      else if keyword = "case" then
        match rest with
        | ⟨_, .word subject⟩ :: rest =>
          let (all, rest) ← arms fuel (skipBreaks (← expectKeyword "in" (skipBreaks rest)))
          finished (.select line subject all) rest
        | rest => throw (unexpected "word" rest)
      else if keyword = "\x7b" then
        let (inner, rest) ← list fuel false rest
        finished inner (← expectKeyword "\x7d" rest)
      else throw (unexpected [] tokens)
    | tokens, _ => throw (unexpected [] tokens)

/-- A choice behind its first word. -/
def choice : Nat → List Token → Except Trouble (Command × List Token)
  | 0, tokens => .error (unexpected [] tokens)
  | fuel + 1, tokens => do
    let (condition, rest) ← list fuel false tokens
    let (yes, rest) ← list fuel false (← expectKeyword "then" rest)
    if keyword? rest = some "elif" then
      let (no, rest) ← choice fuel rest.tail
      return (.choice condition yes no, rest)
    else if keyword? rest = some "else" then
      let (no, rest) ← list fuel false rest.tail
      return (.choice condition yes no, ← expectKeyword "fi" rest)
    else return (.choice condition yes .nothing, ← expectKeyword "fi" rest)

/-- A loop over words behind its first word. -/
def each : Nat → Nat → List Token → Except Trouble (Command × List Token)
  | 0, _, tokens => .error (unexpected [] tokens)
  | fuel + 1, line, tokens =>
    match tokens with
    | ⟨here, .word w⟩ :: rest => do
      match (plain? w).filter isName with
      | some name =>
        let rest := skipBreaks rest
        let (words, rest) ← if keyword? rest = some "in" then do
            let (words, rest) ← loopWords rest.tail
            pure (some words, rest)
          else match rest with
            | ⟨_, .mark [';']⟩ :: rest => pure (none, rest)
            | rest => pure (none, rest)
        let (body, rest) ← list fuel false (← expectKeyword "do" (skipBreaks rest))
        return (.each line name words body, ← expectKeyword "done" rest)
      | none => throw ⟨here, "Bad for loop variable"⟩
    | ⟨here, .broken message⟩ :: _ => throw ⟨here, message⟩
    | tokens => throw ⟨lineOf tokens, "Bad for loop variable"⟩

/-- The arms of a choice by patterns through its last word. -/
def arms : Nat → List Token → Except Trouble (Command × List Token)
  | 0, tokens => .error (unexpected [] tokens)
  | fuel + 1, tokens =>
    if keyword? tokens = some "esac" then .ok (.nothing, tokens.tail)
    else do
      let tokens := match tokens with
        | ⟨_, .mark ['(']⟩ :: rest => rest
        | tokens => tokens
      let (patterns, rest) ← armPatterns tokens
      let (body, rest) ← list fuel true rest
      let rest := skipBreaks rest
      if keyword? rest = some "esac" then return (.arm patterns body .nothing, rest.tail)
      else
        let (more, rest) ← arms fuel (skipBreaks (← expectMark [';', ';'] rest))
        return (.arm patterns body more, rest)

end

/-- The commands of one line and what follows it. -/
def lineCommands : Nat → List Token → Except Trouble (Command × List Token)
  | 0, tokens => .error (unexpected [] tokens)
  | fuel + 1, tokens =>
    match tokens with
    | ⟨_, .lineBreak⟩ :: rest => .ok (.nothing, rest)
    | ⟨_, .finish⟩ :: _ => .ok (.nothing, tokens)
    | _ => do
      let (first, rest) ← chain (8 * tokens.length + 8) tokens
      match rest with
      | ⟨_, .mark ['&']⟩ :: rest =>
        let (second, rest) ← lineCommands fuel rest
        return (.sequence (.background first) second, rest)
      | ⟨_, .mark [';']⟩ :: rest =>
        let (second, rest) ← lineCommands fuel rest
        return (.sequence first second, rest)
      | ⟨_, .lineBreak⟩ :: rest => return (first, rest)
      | ⟨_, .finish⟩ :: _ => return (first, rest)
      | _ => throw (unexpected [] rest)

/-- The lines of a script, and the trouble with the first that cannot be read. -/
def readLines : Nat → List Token → List Command × Option Trouble
  | 0, _ => ([], none)
  | _ + 1, [] => ([], none)
  | _ + 1, ⟨_, .finish⟩ :: _ => ([], none)
  | fuel + 1, tokens =>
    match lineCommands (tokens.length + 1) tokens with
    | .error trouble => ([], some trouble)
    | .ok (command, rest) =>
      let (more, trouble) := readLines fuel rest
      (command :: more, trouble)

/-- The lines of a script that begins in the given line. -/
def read (line : Nat) (t : Text) : List Command × Option Trouble :=
  let all := tokens line t
  readLines (all.length + 1) all

end StyleBatch.Script
