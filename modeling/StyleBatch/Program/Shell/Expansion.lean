import StyleBatch.Program.Arithmetic
import StyleBatch.Program.Pattern
import StyleBatch.Program.Script.Word
import StyleBatch.Program.Shell.State

/-!
# Expansion of words

A word becomes parts: characters that remember whether they were quoted or came from a
parameter, and cuts between arguments. The parts become fields, which are cut where
characters of unquoted parameters separate, and patterns among the fields become paths.
-/

namespace StyleBatch.Shell

open Script

/-- Where a character of a word comes from. -/
inductive Origin where
  | written
  | quoted
  | expanded
deriving DecidableEq, Repr

inductive Part where
  | char (c : Char) (origin : Origin)
  /-- Something quoted, if only an empty text. -/
  | quoted
  /-- The end of an argument. -/
  | cut
deriving DecidableEq, Repr

/-! ## Fields -/

/-- Fields that grow at the end: those that are done, and the one that is open. -/
structure Fields where
  /-- Finished fields, the last first. -/
  closed : List Pattern.Written := []
  /-- The open field, its last character first. -/
  current : Option Pattern.Written := none
  /-- Whether the last field was ended by a blank. -/
  afterBlank : Bool := false

def Fields.add (part : Pattern.Written) (f : Fields) : Fields :=
  { f with current := some (part.reverse ++ f.current.getD []), afterBlank := false }

def Fields.cut (afterBlank : Bool) (f : Fields) : Fields :=
  match f.current with
  | some t => ⟨t.reverse :: f.closed, none, afterBlank⟩
  | none => { f with afterBlank := f.afterBlank || afterBlank }

/-- Ends a field at a separator that is no blank; between two of them lies an empty field. -/
def Fields.separate (f : Fields) : Fields :=
  if f.current.isNone && f.afterBlank then { f with afterBlank := false }
  else ⟨(f.current.getD []).reverse :: f.closed, none, false⟩

def isBlank (c : Char) : Bool :=
  c == ' ' || c == '\t' || c == '\n'

/-- Goes on with a part; `separators` cut what was expanded. -/
def Fields.push (separators : Text) (f : Fields) : Part → Fields
  | .char c .expanded =>
    if separators.contains c then if isBlank c then f.cut true else f.separate
    else f.add [(c, false)]
  | .char c .written => f.add [(c, false)]
  | .char c .quoted => f.add [(c, true)]
  | .quoted => f.add []
  | .cut => f.cut false

/-- The fields of parts. -/
def fieldsOf (separators : Text) (parts : List Part) : List Pattern.Written :=
  ((parts.foldl (Fields.push separators) {}).cut false).closed.reverse

/-- All of the parts as one text. -/
def textOf (parts : List Part) : Text :=
  parts.filterMap fun part => match part with
    | .char c _ => some c
    | .quoted => none
    | .cut => some ' '

/-- The parts as a pattern. -/
def patternOf (parts : List Part) : Pattern :=
  Pattern.read (parts.filterMap fun part => match part with
    | .char c origin => some (c, origin = .quoted)
    | _ => none)

def charsOf (quoted : Bool) (t : Text) : List Part :=
  t.map fun c => .char c (if quoted then .quoted else .expanded)

/-! ## Parameters -/

/-- The characters that separate fields. -/
def State.separators (s : State) : Text :=
  (s.value? "IFS").getD " \t\n"

/-- The value of a parameter that is one text; `none` if it is missing. -/
def State.parameter? (s : State) (name : Text) : Option Text :=
  if name = "?" then some (Text.ofNat s.status)
  else if name = "#" then some (Text.ofNat s.arguments.length)
  else if name = "$" then some "32768"
  else if name = "!" then none
  else if name = "-" then some s.flags
  else if name = "0" then some s.name
  else if name = "LINENO" then some (Text.ofNat s.line)
  else if name = "@" ∨ name = "*" then
    if s.arguments.isEmpty then none else some (Text.joinWith " " s.arguments)
  else match Program.number? name with
    | some n => s.arguments[n - 1]?
    | none => s.value? name

/-- The parts of all arguments. -/
def argumentParts (s : State) (star quoted : Bool) : List Part :=
  if star && quoted then
    charsOf true (Text.joinWith (s.separators.take 1) s.arguments)
  else
    match s.arguments with
    | [] => []
    | first :: rest =>
      let each := fun (t : Text) => (if quoted then [Part.quoted] else []) ++ charsOf quoted t
      rest.foldl (fun parts t => parts ++ [.cut] ++ each t) (each first)

/-- Counts a parameter as missing, also if it is empty where that is asked for. -/
def isMissing (orEmpty : Bool) (value : Option Text) : Bool :=
  match value with
  | none => true
  | some t => orEmpty && t.isEmpty

/-- What a word behind an operator is read as; within quotes only its own double quotes go. -/
def operand (line : Nat) (quoted : Bool) (t : Text) : Word :=
  let read := if quoted then quotedWord line (t.filter (· != '"')) else wholeWord line t
  match read with
  | .ok w => w
  | .error _ => [.text t quoted]

/-- Parts of a word behind an operator: its text counts as expanded. -/
def asExpanded (parts : List Part) : List Part :=
  parts.map fun part => match part with
    | .char c .written => .char c .expanded
    | part => part

/-- What runs a script, given as text with its first line, and gives its output. -/
abbrev Capture := State → Nat → Text → State × Bytes

mutual

/-- The parts of one piece. -/
def expandPiece (capture : Capture) : Nat → State → Piece → State × List Part
  | 0, s, _ => (s, [])
  | fuel + 1, s, piece =>
    match piece with
    | .text t quoted =>
      (s, if quoted then .quoted :: charsOf true t else t.map fun c => .char c .written)
    | .output line script quoted =>
      let (s, bytes) := capture s line script
      let text := Utf8.decodeLossy (bytes.filter (· != 0))
      (s, charsOf quoted (Text.dropEnd (· == '\n') text))
    | .arithmetic expression quoted =>
      let (s, parts) := expandPieces capture fuel s (operand s.line true expression)
      match Arithmetic.evaluate s.bindings (textOf parts) with
      | .ok (n, bindings) => ({ s with bindings }, charsOf quoted (Text.ofInt n))
      | .error message => (s.fail message, [])
    | .parameter name operation quoted =>
      let value := s.parameter? name
      let all := name == ['@'] || name == ['*']
      let own := fun (s : State) =>
        if all then argumentParts s (name == ['*']) quoted else charsOf quoted (value.getD [])
      let inner := fun (s : State) (word : Text) =>
        let (s, parts) := expandPieces capture fuel s (operand s.line quoted word)
        (s, asExpanded parts)
      let demanded := fun (expanded : State × List Part) =>
        if value.isNone && !all && s.flags.contains 'u' then
          (s.fail (name ++ ": parameter not set"), [])
        else expanded
      match operation with
      | .value => demanded (s, own s)
      | .length =>
        let n := if all then s.arguments.length else Text.byteSize (value.getD [])
        demanded (s, charsOf quoted (Text.ofNat n))
      | .default orEmpty word => if isMissing orEmpty value then inner s word else (s, own s)
      | .alternative orEmpty word => if isMissing orEmpty value then (s, []) else inner s word
      | .assign orEmpty word =>
        if isMissing orEmpty value then
          let (s, parts) := inner s word
          if isName name then (s.assign name (textOf parts), charsOf quoted (textOf parts))
          else (s.fail (name ++ ": bad variable name"), [])
        else (s, own s)
      | .demand orEmpty word =>
        if isMissing orEmpty value then
          let (s, parts) := inner s word
          let message := if word.isEmpty then
              if orEmpty then ("parameter not set or null" : Text) else "parameter not set"
            else textOf parts
          (s.fail (name ++ ": " ++ message), [])
        else (s, own s)
      | .trimStart longest word =>
        let (s, parts) := expandPieces capture fuel s (operand s.line false word)
        demanded (s, charsOf quoted (Pattern.trimStart longest (patternOf parts) (value.getD [])))
      | .trimEnd longest word =>
        let (s, parts) := expandPieces capture fuel s (operand s.line false word)
        demanded (s, charsOf quoted (Pattern.trimEnd longest (patternOf parts) (value.getD [])))
      | .bad => (s.fail "Bad substitution", [])

/-- The parts of pieces one after the other; after trouble nothing is expanded any more. -/
def expandPieces (capture : Capture) : Nat → State → List Piece → State × List Part
  | 0, s, _ => (s, [])
  | _ + 1, s, [] => (s, [])
  | fuel + 1, s, piece :: rest =>
    let (s, first) := expandPiece capture fuel s piece
    if s.ending.isSome then (s, [])
    else
      let (s, more) := expandPieces capture fuel s rest
      (s, first ++ more)

end

/-- The sign for the home directory in front of a word, replaced. -/
def expandHome (s : State) (w : Word) : Word :=
  match w, s.value? "HOME" with
  | [.text ['~'] false], some home => [.text home true]
  | .text ['~'] false :: .text ['/'] false :: rest, some home =>
    .text home true :: .text ['/'] false :: rest
  | w, _ => w

/-- Bound on the depth of operators within each other, beside the length of the word. -/
def expansionFuel (w : Word) : Nat :=
  w.length + 10000

/-- The parts of a word. -/
def expandWord (capture : Capture) (s : State) (w : Word) : State × List Part :=
  expandPieces capture (expansionFuel w) s (expandHome s w)

/-- A word expanded to one text. -/
def expandText (capture : Capture) (s : State) (w : Word) : State × Text :=
  let (s, parts) := expandWord capture s w
  (s, textOf parts)

/-- A field as a text, or the paths that it stands for as a pattern. -/
def fieldTexts (s : State) (field : Pattern.Written) : List Text :=
  if s.flags.contains 'f' then [Pattern.plainText field]
  else match Pattern.paths s.disk field with
    | [] => [Pattern.plainText field]
    | paths => paths

/-- Words expanded to texts. -/
def expandWords (capture : Capture) (s : State) (ws : List Word) : State × List Text :=
  ws.foldl (fun (s, done) w =>
    if s.ending.isSome then (s, done)
    else
      let (s, parts) := expandWord capture s w
      (s, done ++ (fieldsOf s.separators parts).flatMap (fieldTexts s))) (s, [])

end StyleBatch.Shell
