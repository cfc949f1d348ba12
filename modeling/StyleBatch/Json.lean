import StyleBatch.Text

/-!
# JSON values

`write` gives the compact form, members in the order they are listed. A number is an
integer when it is written as one and fits 64 bits, signed or unsigned; every other
number keeps its text.
-/

namespace StyleBatch

inductive Json where
  | null
  | bool (b : Bool)
  | int (n : Int)
  | real (t : Text)
  | string (t : Text)
  | array (items : List Json)
  | object (members : List (Text × Json))
deriving Repr, Inhabited

namespace Json

/-- A small hexadecimal digit. -/
def hexDigit (n : Nat) : Char :=
  Nat.digitChar (n % 16)

/-- A character inside a string literal: quote, backslash and control characters are
escaped, everything else stands for itself. -/
def escapeChar (c : Char) : Text :=
  if c = '"' then "\\\""
  else if c = '\\' then "\\\\"
  else if c = '\x08' then "\\b"
  else if c = '\x0c' then "\\f"
  else if c = '\n' then "\\n"
  else if c = '\r' then "\\r"
  else if c = '\t' then "\\t"
  else if c.toNat < 0x20 then ['\\', 'u', '0', '0', hexDigit (c.toNat / 16), hexDigit c.toNat]
  else [c]

def writeString (t : Text) : Text :=
  '"' :: t.flatMap escapeChar ++ ['"']

mutual

/-- The compact form of a value. -/
def write : Json → Text
  | .null => "null"
  | .bool b => if b then "true" else "false"
  | .int n => Text.ofInt n
  | .real t => t
  | .string t => writeString t
  | .array items => '[' :: writeItems items ++ [']']
  | .object members => '\x7b' :: writeMembers members ++ ['\x7d']

/-- Values with commas between them. -/
def writeItems : List Json → Text
  | [] => []
  | [v] => write v
  | v :: rest => write v ++ ',' :: writeItems rest

/-- Members with commas between them. -/
def writeMembers : List (Text × Json) → Text
  | [] => []
  | [(name, v)] => writeString name ++ ':' :: write v
  | (name, v) :: rest => writeString name ++ ':' :: write v ++ ',' :: writeMembers rest

end

/-- The value of a member; nothing for values that are no objects. -/
def member? (name : Text) : Json → Option Json
  | .object members => members.lookup name
  | _ => none

/-- The integers that keep their value. -/
def fitsInteger (n : Int) : Bool :=
  decide (-9223372036854775808 ≤ n) && decide (n ≤ 18446744073709551615)

end Json

end StyleBatch
