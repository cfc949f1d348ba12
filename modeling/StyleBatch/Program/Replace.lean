import StyleBatch.Program.Options

/-!
# Replacing bytes

`tr` maps the bytes of one set to those of another, deletes those of a set, or squeezes
runs of them. A set is written with ranges, escapes and classes.
-/

namespace StyleBatch.Program

def byteRange (low high : Nat) : Bytes :=
  (List.range (high + 1 - low)).map fun i => UInt8.ofNat (low + i)

/-- The bytes of a class. -/
def classBytes? (name : Text) : Option Bytes :=
  let upper := byteRange 65 90
  let lower := byteRange 97 122
  let digit := byteRange 48 57
  if name = "upper" then some upper
  else if name = "lower" then some lower
  else if name = "digit" then some digit
  else if name = "alpha" then some (upper ++ lower)
  else if name = "alnum" then some (digit ++ upper ++ lower)
  else if name = "space" then some (byteRange 9 13 ++ [32])
  else if name = "blank" then some [9, 32]
  else if name = "punct" then
    some (byteRange 33 47 ++ byteRange 58 64 ++ byteRange 91 96 ++ byteRange 123 126)
  else none

def isOctal (b : UInt8) : Bool :=
  48 ≤ b && b ≤ 55

/-- Up to three octal digits. -/
def octal (t : Bytes) : UInt8 × Bytes :=
  let digits := (t.take 3).takeWhile isOctal
  (UInt8.ofNat (digits.foldl (fun n d => n * 8 + (d.toNat - 48)) 0), t.drop digits.length)

/-- The byte that a backslash and what follows it stand for. -/
def escapedByte (b : UInt8) (rest : Bytes) : UInt8 × Bytes :=
  if isOctal b then octal (b :: rest)
  else
    let c := Char.ofNat b.toNat
    (if c = 'n' then 10 else if c = 't' then 9 else if c = 'r' then 13 else if c = 'a' then 7
      else if c = 'b' then 8 else if c = 'f' then 12 else if c = 'v' then 11 else b, rest)

/-- The byte in front of a set. -/
def setByte? : Bytes → Option (UInt8 × Bytes)
  | [] => none
  | b :: rest =>
    if b = 92 then
      match rest with
      | [] => some (b, [])
      | c :: rest => some (escapedByte c rest)
    else some (b, rest)

/-- A class in front of a set, such as `[:upper:]`. -/
def setClass? (t : Bytes) : Option (Bytes × Bytes) :=
  match t with
  | 91 :: 58 :: rest =>
    let name := rest.takeWhile (· != 58)
    match rest.drop name.length with
    | 58 :: 93 :: rest =>
      (classBytes? (Utf8.decodeLossy name)).map fun bytes => (bytes, rest)
    | _ => none
  | _ => none

/-- The bytes of a set. -/
def setBytes : Nat → Bytes → Bytes
  | 0, _ => []
  | fuel + 1, t =>
    match setClass? t with
    | some (bytes, rest) => bytes ++ setBytes fuel rest
    | none =>
      match setByte? t with
      | none => []
      | some (low, rest) =>
        match rest with
        | 45 :: more =>
          match setByte? more with
          | some (high, rest) => byteRange low.toNat high.toNat ++ setBytes fuel rest
          | none => low :: setBytes fuel rest
        | _ => low :: setBytes fuel rest

def setOf (t : Text) : Bytes :=
  setBytes (Text.byteSize t + 1) (Utf8.encode t)

/-- The byte at the place of `b` in the second set; the last one serves for what is left. -/
def replaceByte (first second : Bytes) (b : UInt8) : UInt8 :=
  let places := (first.zipIdx.filter fun (c, _) => c == b).map Prod.snd
  match places.getLast? with
  | none => b
  | some i => (second[i]?.orElse fun _ => second.getLast?).getD b

/-- The bytes in the places of all bytes. -/
def replacements (first second : Bytes) : Array UInt8 :=
  ((byteRange 0 255).map (replaceByte first second)).toArray

/-- Runs of a byte of the set become one. -/
def squeeze (set bytes : Bytes) : Bytes :=
  bytes.foldr (fun b done => if done.head? == some b && set.contains b then done else b :: done) []

/-- The bytes that are not in a set. -/
def complement (set : Bytes) : Bytes :=
  (byteRange 0 255).filter fun b => !set.contains b

/-- The ends of a range that runs backwards. -/
def backwardRange? : Bytes → Option Bytes
  | low :: 45 :: high :: rest =>
    if high < low && low != 92 && low != 91 then some [low, 45, high]
    else backwardRange? (45 :: high :: rest)
  | _ :: rest => backwardRange? rest
  | [] => none

def trForms : List OptionForm :=
  [⟨'c', false, "complement"⟩, { letter := 'C' }, ⟨'d', false, "delete"⟩,
    ⟨'s', false, "squeeze-repeats"⟩, ⟨'t', false, "truncate-set1"⟩]

/-- Replaces, deletes or squeezes bytes of its input, as sets say. -/
def tr : Program := fun p =>
  match parseArguments true trForms p.arguments with
  | .error message => p.misuse 1 message
  | .ok parsed =>
    let deletes := parsed.has 'd'
    let squeezes := parsed.has 's'
    let set := fun (t : Text) =>
      if parsed.has 'c' || parsed.has 'C' then complement (setOf t) else setOf t
    let done := fun (output : Bytes) => { p.print output with unread := [] }
    let extra := fun (t : Text) => "extra operand " ++ quoteName t
    match parsed.operands.findSome? fun t => backwardRange? (Utf8.encode t) with
    | some range => p.complain 1 ("range-endpoints of " ++ quoteName (Utf8.decodeLossy range) ++
        " are in reverse collating sequence order")
    | none =>
      match parsed.operands with
      | [] => p.misuse 1 "missing operand"
      | [a] =>
        if deletes && !squeezes then done (p.input.filter fun b => !(set a).contains b)
        else if squeezes && !deletes then done (squeeze (set a) p.input)
        else
          let need : Text := if deletes then
              "Two strings must be given when both deleting and squeezing repeats."
            else "Two strings must be given when translating."
          p.misuse 1 ("missing operand after " ++ quoteName a ++ ['\n'] ++ need)
      | [a, b] =>
        if deletes && !squeezes then
          p.misuse 1 (extra b ++
            "\nOnly one string may be given when deleting without squeezing repeats.")
        else if deletes then
          done (squeeze (setOf b) (p.input.filter fun byte => !(set a).contains byte))
        else if b.isEmpty then
          p.complain 1 "when not truncating set1, string2 must be non-empty"
        else
          let second := setOf b
          let first := if parsed.has 't' then (set a).take second.length else set a
          let table := replacements first second
          let mapped := p.input.map fun byte => table.getD byte.toNat byte
          done (if squeezes then squeeze second mapped else mapped)
      | _ :: _ :: c :: _ => p.misuse 1 (extra c)

end StyleBatch.Program
