import StyleBatch.Bytes
import StyleBatch.Directive.Splice
import StyleBatch.Text.Utf8

/-!
# Scanning byte by byte

The scan for import directives as it goes over the UTF-8 bytes of a source, by positions. Reading a
byte at a position out of range has no result, and neither has cutting a text where no character
ends. A position that is looked up with `[pos]?` and compared with an option may lie out of range.
-/

namespace StyleBatch

namespace Text

/-- The text between two byte positions. -/
def slice? (start stop : Nat) (t : Text) : Option Text :=
  if start ≤ stop then do
    let (_, rest) ← cutBytes? start t
    let (piece, _) ← cutBytes? (stop - start) rest
    return piece
  else none

end Text

namespace Bytewise

/-- The byte of an ASCII character. -/
def ascii (c : Char) : UInt8 :=
  UInt8.ofNat c.toNat

/-- Bytes that continue an at-word. -/
def isWordByte (b : UInt8) : Bool :=
  Lexeme.isWordChar (Char.ofNat b.toNat)

section Skipping

variable (bytes : Bytes)

/-- The end of a block comment, from a position in its body. -/
def blockComment? (pos : Nat) : Option Nat :=
  if pos + 1 < bytes.length then do
    let b ← bytes[pos]?
    let next ← bytes[pos + 1]?
    if b = ascii '*' ∧ next = ascii '/' then some (pos + 2) else blockComment? (pos + 1)
  else some bytes.length
termination_by bytes.length - pos

/-- The line feed that ends a line comment, or the end. -/
def lineComment? (pos : Nat) : Option Nat :=
  if pos < bytes.length then do
    let b ← bytes[pos]?
    if b = ascii '\n' then some pos else lineComment? (pos + 1)
  else some pos
termination_by bytes.length - pos

/-- The end of a string literal, from a position in it. A backslash takes a byte with it. -/
def stringLiteral? (quote : UInt8) (pos : Nat) : Option Nat :=
  if pos < bytes.length then do
    let b ← bytes[pos]?
    if b = ascii '\\' then stringLiteral? quote (pos + 2)
    else if b = ascii '\n' then some pos
    else if b = quote then some (pos + 1)
    else stringLiteral? quote (pos + 1)
  else some bytes.length
termination_by bytes.length - pos

/-- Whether the keyword stands at a position and no word goes on behind it. -/
def startsKeyword? (pos : Nat) : Option Bool :=
  if pos ≤ bytes.length then
    some ((Utf8.encode Lexeme.keyword).isPrefixOf (bytes.drop pos) &&
      match bytes[pos + Lexeme.keyword.length]? with
      | some b => !isWordByte b
      | none => false)
  else none

/-- The quote that ends the filler of a directive, if one does. -/
def openingQuote? (pos : Nat) : Option (Nat × UInt8) :=
  if h : pos < bytes.length then
    let b := bytes[pos]
    if b = ascii ';' ∨ b = ascii '\n' ∨ b = ascii '\r' then none
    else if b = ascii '"' ∨ b = ascii '\'' then some (pos, b)
    else openingQuote? (pos + 1)
  else none
termination_by bytes.length - pos

/-- The quote that ends a specifier, if one does. -/
def closingQuote? (quote : UInt8) (pos : Nat) : Option Nat :=
  if h : pos < bytes.length then
    let b := bytes[pos]
    if b = ascii '\n' ∨ b = ascii '\r' then none
    else if b = quote then some pos
    else closingQuote? quote (pos + 1)
  else none
termination_by bytes.length - pos

end Skipping

/-- The directive whose keyword begins at `start`, if there is one; what follows the keyword begins
at `pos`. -/
def directive? (source : Text) (start pos : Nat) : Option (Option Directive) :=
  match openingQuote? (Utf8.encode source) pos with
  | none => some none
  | some (opening, quote) =>
    if opening = pos then some none
    else match closingQuote? (Utf8.encode source) quote (opening + 1) with
      | none => some none
      | some closing =>
        if closing = opening + 1 then some none
        else do
          let specifier ← Text.slice? (opening + 1) closing source
          return some ⟨specifier, start, closing + 1⟩

/-- The position behind what begins at a position, and the directive that it is. -/
def step? (source : Text) (pos : Nat) : Option (Nat × Option Directive) := do
  let bytes := Utf8.encode source
  let b ← bytes[pos]?
  if b = ascii '/' ∧ bytes[pos + 1]? = some (ascii '*') then
    return (← blockComment? bytes (pos + 2), none)
  else if b = ascii '/' ∧ bytes[pos + 1]? = some (ascii '/') then
    return (← lineComment? bytes (pos + 2), none)
  else if b = ascii '"' ∨ b = ascii '\'' then
    return (← stringLiteral? bytes b (pos + 1), none)
  else if b = ascii '@' then
    if ← startsKeyword? bytes pos then
      match ← directive? source pos (pos + Lexeme.keyword.length) with
      | some d => return (d.stop, some d)
      | none => return (pos + Lexeme.keyword.length, none)
    else return (pos + 1, none)
  else return (pos + 1, none)

/-- A scan that goes over the source from a position to the end, and the directives it finds. -/
inductive Scans (source : Text) : Nat → List Directive → Prop
  | stop {pos : Nat} : (Utf8.encode source).length ≤ pos → Scans source pos []
  | step {pos next : Nat} {found : Option Directive} {rest : List Directive} :
      pos < (Utf8.encode source).length → step? source pos = some (next, found) →
        Scans source next rest → Scans source pos (found.toList ++ rest)

end Bytewise

end StyleBatch
