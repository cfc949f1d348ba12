import StyleBatch.Toml.Document
import StyleBatch.Toml.Number
import StyleBatch.Toml.Quoted

/-!
# Reading TOML

`Toml.read?` accepts a document: lines with headers, with keys and values, or with
nothing but a comment. Values nest less than 80 deep, and keys have less than 80 parts.
-/

namespace StyleBatch.Toml

/-- Bound on the nesting of values and on the parts of a key. -/
def depthLimit : Nat := 80

/-! ## Keys and line ends -/

def isBareKey (c : Char) : Bool :=
  c.isAlphanum || c == '_' || c == '-'

/-- One part of a key. -/
def keyPart? (t : Text) : Option (Text × Text) :=
  match lineString? t with
  | some found => some found
  | none =>
    let part := t.takeWhile isBareKey
    if part.isEmpty then none else some (part, t.dropWhile isBareKey)

/-- The parts of a key, with blanks around each. -/
def keyParts? : Nat → Text → Option (List Text × Text)
  | 0, _ => none
  | fuel + 1, t => do
    let (part, rest) ← keyPart? (skipBlanks t)
    match skipBlanks rest with
    | '.' :: rest =>
      let (parts, rest) ← keyParts? fuel rest
      return (part :: parts, rest)
    | rest => return ([part], rest)

/-- A key as the path to its last part, and that part. -/
def key? (t : Text) : Option ((List Text × Text) × Text) := do
  let (parts, rest) ← keyParts? (t.length + 1) t
  let last ← parts.getLast?
  if parts.length < depthLimit then return ((parts.dropLast, last), rest) else none

/-- What follows a comment, if there is one. -/
def skipComment (t : Text) : Text :=
  match t with
  | '#' :: rest => rest.dropWhile isPlain
  | _ => t

/-- What follows the end of a line, blanks and a comment before it included. -/
def lineEnd? (t : Text) : Option Text :=
  match skipComment (skipBlanks t) with
  | [] => some []
  | rest => newline? rest

/-- Skips blanks, line breaks and comments; a comment has to end with its line. -/
def skipFiller : Nat → Text → Option Text
  | 0, _ => none
  | fuel + 1, t =>
    match skipLines t with
    | '#' :: rest =>
      match rest.dropWhile isPlain with
      | [] => some []
      | rest => (newline? rest).bind fun rest => skipFiller fuel rest
    | rest => some rest

/-! ## Values -/

/-- What follows a word, with the value it stands for. -/
def word? (word : Text) (v : Json) (t : Text) : Option (Json × Text) :=
  (Text.after? word t).map fun rest => (v, rest)

mutual

/-- A value that `depth` others contain. -/
def value? : Nat → Nat → Text → Option (Json × Text)
  | 0, _, _ => none
  | _ + 1, _, [] => none
  | fuel + 1, depth, c :: rest =>
    if c = '"' ∨ c = '\x27' then
      (string? (c :: rest)).map fun (t, rest) => (.string t, rest)
    else if c = '[' then
      if depth + 1 < depthLimit then items? fuel (depth + 1) true rest [] else none
    else if c = '\x7b' then
      if depth + 1 < depthLimit then
        match skipBlanks rest with
        | '\x7d' :: rest => some (.object [], rest)
        | rest => members? fuel (depth + 1) rest []
      else none
    else if c = 't' then word? "true" (.bool true) (c :: rest)
    else if c = 'f' then word? "false" (.bool false) (c :: rest)
    else number? (c :: rest)

/-- The items of an array that are left; another one may begin here if `isOpen`. -/
def items? : Nat → Nat → Bool → Text → List Json → Option (Json × Text)
  | 0, _, _, _, _ => none
  | fuel + 1, depth, isOpen, t, items => do
    match ← skipFiller (t.length + 1) t with
    | ']' :: rest => return (.array items, rest)
    | ',' :: rest => if isOpen then none else items? fuel depth true rest items
    | rest =>
      if isOpen then
        let (v, rest) ← value? fuel depth rest
        items? fuel depth false rest (items ++ [v])
      else none

/-- The members of an inline table from a key on. -/
def members? : Nat → Nat → Text → Members → Option (Json × Text)
  | 0, _, _, _ => none
  | fuel + 1, depth, t, members => do
    let ((path, key), rest) ← key? t
    match rest with
    | '=' :: rest =>
      let (v, rest) ← value? fuel depth (skipBlanks rest)
      let members ← assign path key v members
      match skipBlanks rest with
      | ',' :: rest => members? fuel depth rest members
      | '\x7d' :: rest => return (.object (membersToJson members), rest)
      | _ => none
    | _ => none

end

/-! ## Documents -/

/-- A header or a key with its value, up to the end of its line. -/
def entry (t : Text) (d : Document) : Option (Document × Text) :=
  match t with
  | '[' :: '[' :: rest => do
    let ((path, key), rest) ← key? rest
    let rest ← Text.after? "]]" rest
    return (← d.appendTable path key, ← lineEnd? rest)
  | '[' :: rest => do
    let ((path, key), rest) ← key? rest
    let rest ← Text.after? "]" rest
    return (← d.openTable path key, ← lineEnd? rest)
  | _ => do
    let ((path, key), rest) ← key? t
    let rest ← Text.after? "=" rest
    let (v, rest) ← value? (2 * rest.length + 2) 0 (skipBlanks rest)
    return (← d.assign path key v, ← lineEnd? rest)

/-- The entries that are left. -/
def entries : Nat → Text → Document → Option Document
  | 0, _, _ => none
  | fuel + 1, t, d => do
    match ← skipFiller (t.length + 1) t with
    | [] => return d
    | rest =>
      let (d, rest) ← entry rest d
      entries fuel rest d

/-- The document that a text writes; a byte order mark in front is passed over. -/
def read? (t : Text) : Option Json :=
  let t := (Text.after? "\ufeff" t).getD t
  (entries (t.length + 2) t {}).map Document.toJson

end StyleBatch.Toml
