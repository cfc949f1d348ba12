import StyleBatch.Disk
import StyleBatch.Text.Alphanumeric
import StyleBatch.Text.Blank
import StyleBatch.Variables

/-!
# Files of variables

A file named `.env`, in the working directory or the nearest one above it that has such a
file, gives values to variables that have none. A value in quotes may go on over lines,
`$` brings in other variables, and at the first line that cannot be read the rest is left.
-/

namespace StyleBatch.Variables

/-! ## Lines -/

/-- Where a line stands with its quotes. -/
inductive Reach where
  | complete
  | blank
  | escape
  | strong
  | strongEscape
  | weak
  | weakEscape
deriving DecidableEq, Repr

/-- The state after a character; nothing where a comment begins. -/
def Reach.next? (c : Char) : Reach → Option Reach
  | blank =>
    if c = '#' then none
    else some (if c = '\\' then escape else if c = '"' then weak else if c = '\x27' then strong
      else complete)
  | complete =>
    some (if Char.isBlank c && c != '\n' && c != '\r' then blank
      else if c = '\\' then escape else if c = '"' then weak else if c = '\x27' then strong
      else complete)
  | escape => some complete
  | weak => some (if c = '\\' then weakEscape else if c = '"' then complete else weak)
  | weakEscape => some weak
  | strong => some (if c = '\\' then strongEscape else if c = '\x27' then complete else strong)
  | strongEscape => some strong

/-- How far a line gets: its end state, or what stands before its comment. -/
def scanLine : Reach → Text → Except Text Reach
  | reach, [] => .ok reach
  | reach, c :: rest =>
    match reach.next? c with
    | none => .error []
    | some reach =>
      match scanLine reach rest with
      | .error before => .error (c :: before)
      | .ok reach => .ok reach

/-- The text without its line end. -/
def withoutLineEnd (t : Text) : Text :=
  match Text.before? "\r\n" t with
  | some t => t
  | none => (Text.before? "\n" t).getD t

/-- Joins lines to entries. A text that cannot be read ends the list with `none`. -/
def entries : Reach → Text → List Bytes → List (Option Text)
  | reach, _, [] => if reach = .complete then [] else [none]
  | reach, begun, line :: rest =>
    match Utf8.decode? line with
    | none => [none]
    | some line =>
      if ((begun ++ line).dropWhile Char.isBlank).head? == some '#' then
        entries .complete [] rest
      else match scanLine reach line with
        | .error before => some (begun ++ before) :: entries .complete [] rest
        | .ok .complete => some (withoutLineEnd (begun ++ line)) :: entries .complete [] rest
        | .ok reach => entries reach (begun ++ line) rest

/-! ## Values -/

/-- Where the reading of a value stands. -/
inductive Mode where
  | plain
  | strong
  | weak
  /-- Behind a backslash, within double quotes or without. -/
  | escape (quoted : Bool)
  /-- Within the name of a variable, in braces or not. -/
  | name (quoted : Bool) (braced : Bool) (name : Text)
  /-- Behind the value. -/
  | done
deriving DecidableEq, Repr

def Mode.ofQuote (quoted : Bool) : Mode :=
  if quoted then .weak else .plain

/-- A character outside names, escapes and single quotes: what is added, and the mode. -/
def plainStep (quoted : Bool) (c : Char) : Text × Mode :=
  if c = '$' then ([], .name quoted false [])
  else if quoted then
    if c = '"' then ([], .plain) else if c = '\\' then ([], .escape true) else ([c], .weak)
  else if c = '\x27' then ([], .strong)
  else if c = '"' then ([], .weak)
  else if c = '\\' then ([], .escape false)
  else if c = ' ' ∨ c = '\t' then ([], .done)
  else ([c], .plain)

/-- The value that a text writes; `lookup` gives the values of variables. -/
def value? (lookup : Text → Text) : Mode → Text → Option Text
  | .plain, [] => some []
  | .done, [] => some []
  | .escape quoted, [] => if quoted then none else some []
  | .name quoted braced name, [] => if quoted || braced then none else some (lookup name)
  | _, [] => none
  | .done, c :: rest =>
    if c = ' ' ∨ c = '\t' then value? lookup .done rest
    else if c = '#' then some []
    else none
  | .escape quoted, c :: rest =>
    if c = '\\' ∨ c = '\x27' ∨ c = '"' ∨ c = '$' ∨ c = ' ' then
      (value? lookup (.ofQuote quoted) rest).map (c :: ·)
    else if c = 'n' then (value? lookup (.ofQuote quoted) rest).map ('\n' :: ·)
    else none
  | .strong, c :: rest =>
    if c = '\x27' then value? lookup .plain rest
    else (value? lookup .strong rest).map (c :: ·)
  | .name quoted braced name, c :: rest =>
    if Char.isLetterOrNumber c then value? lookup (.name quoted braced (name ++ [c])) rest
    else if braced then
      if c = '\x7d' then (value? lookup (.ofQuote quoted) rest).map (lookup name ++ ·)
      else value? lookup (.name quoted true (name ++ [c])) rest
    else if c = '\x7b' ∧ name = [] then value? lookup (.name quoted true []) rest
    else if c = '$' then (value? lookup (.name quoted false []) rest).map (lookup name ++ ·)
    else (value? lookup (.ofQuote quoted) rest).map (lookup name ++ c :: ·)
  | .plain, c :: rest =>
    let (added, mode) := plainStep false c
    (value? lookup mode rest).map (added ++ ·)
  | .weak, c :: rest =>
    let (added, mode) := plainStep true c
    (value? lookup mode rest).map (added ++ ·)

/-! ## Entries -/

/-- A name, and what follows it and blanks. -/
def name? (t : Text) : Option (Text × Text) :=
  match t with
  | [] => none
  | c :: _ =>
    if c.isAlpha || c == '_' then
      let isPart := fun (c : Char) => c.isAlphanum || c == '_' || c == '.'
      some (t.takeWhile isPart, (t.dropWhile isPart).dropWhile Char.isBlank)
    else none

/-- The name of an entry and the text of its value, behind an optional `export`. -/
def assignment? (t : Text) : Option (Text × Text) := do
  let (name, rest) ← name? t
  match rest with
  | '=' :: rest => return (name, rest)
  | _ =>
    if name = "export" then
      let (name, rest) ← name? rest
      return (name, ← Text.after? "=" rest)
    else none

/-- What an entry sets: nothing for blank ones; no entry if it cannot be read. -/
def setting? (lookup : Text → Text) (t : Text) : Option (Option (Text × Text)) :=
  let t := Text.trim t
  if t.isEmpty || t.head? == some '#' then some none
  else do
    let (name, rest) ← assignment? t
    let rest := rest.dropWhile Char.isBlank
    if rest.isEmpty || rest.head? == some '#' then return some (name, [])
    else return some (name, ← value? lookup .plain rest)

/-- Applies entries up to the first that cannot be read. `seen` has the values that the
file gave, which count where the process has none. -/
def applyEntries : List (Option Text) → Variables → Variables → Variables
  | [], _, bindings => bindings
  | none :: _, _, bindings => bindings
  | some t :: rest, seen, bindings =>
    let lookup := fun name =>
      ((Table.get? bindings name).orElse fun _ => Table.get? seen name).getD []
    match setting? lookup t with
    | none => bindings
    | some none => applyEntries rest seen bindings
    | some (some (name, value)) =>
      applyEntries rest (Table.set seen name value) (setMissing name value bindings)

/-- Applies a file's bytes; a byte order mark in front is passed over. -/
def applyFile (bytes : Bytes) (bindings : Variables) : Variables :=
  applyEntries (entries .complete [] (Bytes.lines bytes.withoutMark)) [] bindings

/-- The file in a directory or the nearest one above it; `fuel` bounds the way up. -/
def findFile? (disk : Disk) : Nat → List Text → Option (Bytes)
  | 0, _ => none
  | fuel + 1, directory =>
    match disk.find? (directory ++ [(".env" : Text)]) with
    | some (.file bytes) => some bytes
    | _ => if directory.isEmpty then none else findFile? disk fuel directory.dropLast

/-- Gives values to the variables that have none, by the file that is found. -/
def withFile (disk : Disk) (bindings : Variables) : Variables :=
  match findFile? disk (disk.workingDirectory.length + 1) disk.workingDirectory with
  | some bytes => applyFile bytes bindings
  | none => bindings

end StyleBatch.Variables
