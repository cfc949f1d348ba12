import StyleBatch.Json.Reader

/-!
# TOML numbers, dates and times

An underscore may stand between two digits. Integers fit 64 bits with sign. A date or a
time becomes an object with one member, which no record asks for.
-/

namespace StyleBatch.Toml

/-- Digits behind a first one, without the underscores between them. -/
def moreDigits (isDigit : Char → Bool) : Text → Text × Text
  | [] => ([], [])
  | '_' :: c :: rest =>
    if isDigit c then
      let (digits, rest) := moreDigits isDigit rest
      (c :: digits, rest)
    else ([], '_' :: c :: rest)
  | c :: rest =>
    if isDigit c then
      let (digits, rest) := moreDigits isDigit rest
      (c :: digits, rest)
    else ([], c :: rest)

/-- At least one digit. -/
def digits? (isDigit : Char → Bool) : Text → Option (Text × Text)
  | [] => none
  | c :: rest =>
    if isDigit c then
      let (digits, rest) := moreDigits isDigit rest
      some (c :: digits, rest)
    else none

/-- Digits without a zero in front of others. -/
def whole? : Text → Option (Text × Text)
  | '0' :: rest => some (['0'], rest)
  | t => digits? Char.isDigit t

/-- Whether there is a minus sign, and what follows a sign. -/
def sign : Text → Bool × Text
  | '+' :: rest => (false, rest)
  | '-' :: rest => (true, rest)
  | t => (false, t)

/-! ## Integers -/

/-- The value of digits in a base. -/
def valueOf (base : Nat) (digits : Text) : Nat :=
  digits.foldl (fun n c => n * base + (Json.hexValue? c).getD 0) 0

def fits64 (n : Int) : Bool :=
  decide (-9223372036854775808 ≤ n) && decide (n ≤ 9223372036854775807)

/-- Digits of a base, behind its mark. -/
def based? (base : Nat) (t : Text) : Option (Json × Text) := do
  let isDigit := fun c => match Json.hexValue? c with
    | some v => decide (v < base)
    | none => false
  let (digits, rest) ← digits? isDigit t
  let n : Int := valueOf base digits
  if fits64 n then return (.int n, rest) else none

def integer? (t : Text) : Option (Json × Text) :=
  match t with
  | '0' :: 'x' :: rest => based? 16 rest
  | '0' :: 'o' :: rest => based? 8 rest
  | '0' :: 'b' :: rest => based? 2 rest
  | _ => do
    let (negative, rest) := sign t
    let (digits, rest) ← whole? rest
    let n : Int := if negative then -(valueOf 10 digits : Int) else valueOf 10 digits
    if fits64 n then return (.int n, rest) else none

/-! ## Decimal fractions -/

/-- Whether `mantissa * 10 ^ exponent` rounds to a finite number of 64 bits: half a unit
above the greatest of these it no longer does. -/
def isFinite (mantissa : Nat) (exponent : Int) : Bool :=
  let bound := Nat.pow 2 1024 - Nat.pow 2 970
  let magnitude := (Nat.toDigits 10 mantissa).length + exponent
  if mantissa == 0 || magnitude < 300 then true
  else if magnitude > 320 then false
  else if 0 ≤ exponent then mantissa * Nat.pow 10 exponent.toNat < bound
  else mantissa < bound * Nat.pow 10 (-exponent).toNat

/-- Point and digits, or nothing. -/
def fractionDigits? : Text → Option (Text × Text)
  | '.' :: rest => digits? Char.isDigit rest
  | t => some ([], t)

/-- Exponent, or nothing. -/
def exponent? : Text → Option (Option Int × Text)
  | [] => some (none, [])
  | c :: rest =>
    if c = 'e' ∨ c = 'E' then do
      let (negative, rest) := sign rest
      let (digits, rest) ← digits? Char.isDigit rest
      let n : Int := valueOf 10 digits
      return (some (if negative then -n else n), rest)
    else some (none, c :: rest)

/-- Infinity or what is not a number. -/
def special? (t : Text) : Option (Json × Text) :=
  let (_, rest) := sign t
  match rest with
  | 'i' :: 'n' :: 'f' :: rest => some (.real "inf", rest)
  | 'n' :: 'a' :: 'n' :: rest => some (.real "nan", rest)
  | _ => none

/-- A number with a fraction, an exponent or both. -/
def fraction? (t : Text) : Option (Json × Text) := do
  let (negative, rest) := sign t
  let (whole, rest) ← whole? rest
  let (fraction, rest) ← fractionDigits? rest
  let (exponent, rest) ← exponent? rest
  if fraction.isEmpty && exponent.isNone then none
  else
    let written := exponent.getD 0
    if negative || isFinite (valueOf 10 (whole ++ fraction)) (written - fraction.length) then
      let point := if fraction.isEmpty then [] else '.' :: fraction
      let signed := if negative then '-' :: whole else whole
      return (.real (signed ++ point ++ 'e' :: Text.ofInt written), rest)
    else none

/-! ## Dates and times -/

/-- A number of exactly so many digits. -/
def fixed? (digits : Nat) (t : Text) : Option (Nat × Text) :=
  let taken := t.take digits
  if taken.length = digits && taken.all Char.isDigit then
    some (valueOf 10 taken, t.drop digits)
  else none

/-- A number of two digits between bounds. -/
def twoDigits? (low high : Nat) (t : Text) : Option (Nat × Text) := do
  let (n, rest) ← fixed? 2 t
  if low ≤ n ∧ n ≤ high then return (n, rest) else none

def mark? (c : Char) : Text → Option Text
  | d :: rest => if d = c then some rest else none
  | [] => none

def isLeapYear (year : Nat) : Bool :=
  year % 4 == 0 && (year % 100 != 0 || year % 400 == 0)

def daysOf (year month : Nat) : Nat :=
  if month = 2 then if isLeapYear year then 29 else 28
  else if month = 4 ∨ month = 6 ∨ month = 9 ∨ month = 11 then 30
  else 31

/-- What follows a date. -/
def date? (t : Text) : Option Text := do
  let (year, rest) ← fixed? 4 t
  let (month, rest) ← twoDigits? 1 12 (← mark? '-' rest)
  let (_, rest) ← twoDigits? 1 (daysOf year month) (← mark? '-' rest)
  return rest

/-- What follows a fraction of a second, if there is one. -/
def secondFraction? : Text → Option Text
  | '.' :: rest =>
    if (rest.takeWhile Char.isDigit).isEmpty then none else some (rest.dropWhile Char.isDigit)
  | t => some t

/-- What follows a time of day. -/
def time? (t : Text) : Option Text := do
  let (_, rest) ← twoDigits? 0 23 t
  let (_, rest) ← twoDigits? 0 59 (← mark? ':' rest)
  let (_, rest) ← twoDigits? 0 60 (← mark? ':' rest)
  secondFraction? rest

/-- What follows an offset from universal time, if there is one. -/
def offset? : Text → Option Text
  | [] => some []
  | c :: rest =>
    if c = 'Z' ∨ c = 'z' then some rest
    else if c = '+' ∨ c = '-' then do
      let (_, rest) ← twoDigits? 0 23 rest
      let (_, rest) ← twoDigits? 0 59 (← mark? ':' rest)
      return rest
    else some (c :: rest)

/-- What follows the time behind a date, if there is one. -/
def timeOfDate? : Text → Option Text
  | [] => some []
  | c :: rest =>
    if c = 'T' ∨ c = 't' ∨ c = ' ' then
      match time? rest with
      | some rest => offset? rest
      | none => some (c :: rest)
    else some (c :: rest)

/-- A date, a time, or both. -/
def moment? (t : Text) : Option (Json × Text) := do
  let rest ← match date? t with
    | some rest => timeOfDate? rest
    | none => time? t
  let written := t.take (t.length - rest.length)
  return (.object [("datetime", .string written)], rest)

/-- A number, a date or a time. -/
def number? (t : Text) : Option (Json × Text) :=
  match moment? t with
  | some found => some found
  | none =>
    match fraction? t with
    | some found => some found
    | none =>
      match special? t with
      | some found => some found
      | none => integer? t

end StyleBatch.Toml
