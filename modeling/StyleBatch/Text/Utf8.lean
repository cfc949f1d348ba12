import StyleBatch.Text

/-!
# UTF-8

`encode` writes text as bytes. `decode` reads bytes: every maximal ill-formed part
yields one `none`. Strict reading wants none of these, lenient reading puts the
replacement character in their place.
-/

namespace StyleBatch.Utf8

/-- The bytes of a text. -/
def encode (t : Text) : List UInt8 :=
  t.flatMap String.utf8EncodeChar

/-- A character of which some bytes are still missing; the next lies in `low..high`. -/
structure Unfinished where
  value : Nat
  missing : Nat
  low : Nat
  high : Nat

/-- What a byte that starts a character announces. -/
inductive Lead where
  | whole (c : Char)
  | start (u : Unfinished)
  | bad

/-- Overlong forms, surrogates and values above the last code point are ruled out by
the range of the second byte. -/
def lead (b : UInt8) : Lead :=
  let n := b.toNat
  if n < 0x80 then .whole (Char.ofNat n)
  else if n < 0xC2 then .bad
  else if n < 0xE0 then .start ⟨n - 0xC0, 1, 0x80, 0xBF⟩
  else if n = 0xE0 then .start ⟨0, 2, 0xA0, 0xBF⟩
  else if n = 0xED then .start ⟨13, 2, 0x80, 0x9F⟩
  else if n < 0xF0 then .start ⟨n - 0xE0, 2, 0x80, 0xBF⟩
  else if n = 0xF0 then .start ⟨0, 3, 0x90, 0xBF⟩
  else if n < 0xF4 then .start ⟨n - 0xF0, 3, 0x80, 0xBF⟩
  else if n = 0xF4 then .start ⟨4, 3, 0x80, 0x8F⟩
  else .bad

/-- Reads on in the middle of a character, or between two. -/
def decodeFrom : Option Unfinished → List UInt8 → List (Option Char)
  | none, [] => []
  | some _, [] => [none]
  | none, b :: rest =>
    match lead b with
    | .whole c => some c :: decodeFrom none rest
    | .start u => decodeFrom (some u) rest
    | .bad => none :: decodeFrom none rest
  | some u, b :: rest =>
    if u.low ≤ b.toNat && b.toNat ≤ u.high then
      let value := u.value * 64 + b.toNat % 64
      if u.missing = 1 then some (Char.ofNat value) :: decodeFrom none rest
      else decodeFrom (some ⟨value, u.missing - 1, 0x80, 0xBF⟩) rest
    else
      match lead b with
      | .whole c => none :: some c :: decodeFrom none rest
      | .start v => none :: decodeFrom (some v) rest
      | .bad => none :: none :: decodeFrom none rest

/-- Characters of a byte sequence, with `none` for each maximal ill-formed part. -/
def decode (bytes : List UInt8) : List (Option Char) :=
  decodeFrom none bytes

/-- The text that the bytes encode, if they are well-formed. -/
def decode? (bytes : List UInt8) : Option Text :=
  (decode bytes).mapM id

/-- The text of the bytes with a replacement character for every ill-formed part. -/
def decodeLossy (bytes : List UInt8) : Text :=
  (decode bytes).map (·.getD '\uFFFD')

end StyleBatch.Utf8
