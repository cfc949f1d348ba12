import StyleBatch.Json

/-!
# Reading JSON

`Json.read?` accepts one value with blanks around it. Every function takes what it reads
off the front of a text; the fuel bounds the depth and is the length of the text.
-/

namespace StyleBatch.Json

def isSpace (c : Char) : Bool :=
  c == ' ' || c == '\n' || c == '\r' || c == '\t'

def skipSpace (t : Text) : Text :=
  t.dropWhile isSpace

def hexValue? (c : Char) : Option Nat :=
  if c.isDigit then some (c.toNat - '0'.toNat)
  else if 'a' ≤ c && c ≤ 'f' then some (c.toNat - 'a'.toNat + 10)
  else if 'A' ≤ c && c ≤ 'F' then some (c.toNat - 'A'.toNat + 10)
  else none

/-- Four hexadecimal digits. -/
def codeUnit? : Text → Option (Nat × Text)
  | a :: b :: c :: d :: rest => do
    let a ← hexValue? a
    let b ← hexValue? b
    let c ← hexValue? c
    let d ← hexValue? d
    return (a * 4096 + b * 256 + c * 16 + d, rest)
  | _ => none

/-- The character of a `\u` escape; a surrogate counts only as half of a pair. -/
def unicodeEscape? (t : Text) : Option (Char × Text) := do
  let (unit, rest) ← codeUnit? t
  if 0xD800 ≤ unit && unit < 0xDC00 then
    match rest with
    | '\\' :: 'u' :: more =>
      let (low, rest) ← codeUnit? more
      if 0xDC00 ≤ low && low < 0xE000 then
        return (Char.ofNat (0x10000 + (unit - 0xD800) * 1024 + (low - 0xDC00)), rest)
      else none
    | _ => none
  else if 0xDC00 ≤ unit && unit < 0xE000 then none
  else return (Char.ofNat unit, rest)

/-- The character of an escape, after the backslash. -/
def escape? : Text → Option (Char × Text)
  | '"' :: rest => some ('"', rest)
  | '\\' :: rest => some ('\\', rest)
  | '/' :: rest => some ('/', rest)
  | 'b' :: rest => some ('\x08', rest)
  | 'f' :: rest => some ('\x0c', rest)
  | 'n' :: rest => some ('\n', rest)
  | 'r' :: rest => some ('\r', rest)
  | 't' :: rest => some ('\t', rest)
  | 'u' :: rest => unicodeEscape? rest
  | _ => none

/-- A string literal from behind its opening quote through its closing quote. -/
def stringTail? : Nat → Text → Option (Text × Text)
  | _, [] => none
  | 0, _ => none
  | fuel + 1, c :: rest =>
    if c = '"' then some ([], rest)
    else if c = '\\' then do
      let (d, rest) ← escape? rest
      let (tail, rest) ← stringTail? fuel rest
      return (d :: tail, rest)
    else if c.toNat < 0x20 then none
    else do
      let (tail, rest) ← stringTail? fuel rest
      return (c :: tail, rest)

/-- The value of decimal digits. -/
def digitsValue (t : Text) : Nat :=
  t.foldl (fun n c => n * 10 + (c.toNat - '0'.toNat)) 0

/-- Digits of a number's whole part: no zero in front of others. -/
def isWholePart : Text → Bool
  | [] => false
  | ['0'] => true
  | '0' :: _ => false
  | _ => true

/-- Point and digits, or nothing. -/
def fraction? : Text → Option (Text × Text)
  | '.' :: rest =>
    let digits := rest.takeWhile Char.isDigit
    if digits.isEmpty then none else some ('.' :: digits, rest.dropWhile Char.isDigit)
  | t => some ([], t)

/-- Sign of an exponent. -/
def exponentSign : Text → Text × Text
  | '+' :: rest => (['+'], rest)
  | '-' :: rest => (['-'], rest)
  | t => ([], t)

/-- Exponent mark, sign and digits, or nothing. -/
def exponent? : Text → Option (Text × Text)
  | [] => some ([], [])
  | c :: rest =>
    if c = 'e' ∨ c = 'E' then
      let (sign, rest) := exponentSign rest
      let digits := rest.takeWhile Char.isDigit
      if digits.isEmpty then none
      else some (c :: sign ++ digits, rest.dropWhile Char.isDigit)
    else some ([], c :: rest)

/-- The number with the given sign; minus zero is not an integer. -/
def number? (negative : Bool) (t : Text) : Option (Json × Text) := do
  let whole := t.takeWhile Char.isDigit
  if !isWholePart whole then none
  let (fraction, rest) ← fraction? (t.dropWhile Char.isDigit)
  let (exponent, rest) ← exponent? rest
  let value : Int := if negative then -(digitsValue whole : Int) else digitsValue whole
  let signed := if negative then '-' :: whole else whole
  if fraction.isEmpty && exponent.isEmpty && fitsInteger value && !(negative && value == 0) then
    return (.int value, rest)
  else return (.real (signed ++ fraction ++ exponent), rest)

/-- A value whose text starts with a letter. -/
def word? (t : Text) : Option (Json × Text) :=
  match Text.after? "null" t with
  | some rest => some (.null, rest)
  | none =>
    match Text.after? "true" t with
    | some rest => some (.bool true, rest)
    | none => (Text.after? "false" t).map fun rest => (.bool false, rest)

mutual

/-- A value; blanks in front of it have been skipped. -/
def value? : Nat → Text → Option (Json × Text)
  | 0, _ => none
  | _ + 1, [] => none
  | fuel + 1, c :: rest =>
    if c = '"' then
      (stringTail? (rest.length + 1) rest).map fun (t, rest) => (.string t, rest)
    else if c = '[' then
      match skipSpace rest with
      | ']' :: rest => some (.array [], rest)
      | t => (items? fuel t).map fun (items, rest) => (.array items, rest)
    else if c = '\x7b' then
      match skipSpace rest with
      | '\x7d' :: rest => some (.object [], rest)
      | t => (members? fuel t).map fun (members, rest) => (.object members, rest)
    else if c = '-' then number? true rest
    else if c.isDigit then number? false (c :: rest)
    else word? (c :: rest)

/-- At least one value, through the closing bracket. -/
def items? : Nat → Text → Option (List Json × Text)
  | 0, _ => none
  | fuel + 1, t => do
    let (v, rest) ← value? fuel t
    match skipSpace rest with
    | ',' :: rest =>
      let (items, rest) ← items? fuel (skipSpace rest)
      return (v :: items, rest)
    | ']' :: rest => return ([v], rest)
    | _ => none

/-- At least one member, through the closing brace. -/
def members? : Nat → Text → Option (List (Text × Json) × Text)
  | 0, _ => none
  | fuel + 1, t => do
    match t with
    | '"' :: rest =>
      let (name, rest) ← stringTail? (rest.length + 1) rest
      match skipSpace rest with
      | ':' :: rest =>
        let (v, rest) ← value? fuel (skipSpace rest)
        match skipSpace rest with
        | ',' :: rest =>
          let (members, rest) ← members? fuel (skipSpace rest)
          return ((name, v) :: members, rest)
        | '\x7d' :: rest => return ([(name, v)], rest)
        | _ => none
      | _ => none
    | _ => none

end

/-- The value that a text writes. -/
def read? (t : Text) : Option Json :=
  match value? (t.length + 1) (skipSpace t) with
  | some (v, rest) => if (skipSpace rest).isEmpty then some v else none
  | none => none

end StyleBatch.Json
