import StyleBatch.Text

/-!
# Decimal texts

How a quotient is written with a point: with so many places behind it, with a power of ten,
or in whichever of the two forms is the shorter one. All digits are computed exactly and
rounded once, half a unit to the even neighbour.
-/

namespace StyleBatch.Decimal

/-- A quotient that is not negative. -/
structure Quotient where
  num : Nat
  den : Nat
deriving DecidableEq, Repr

/-- The nearest whole number; half a unit goes to the even neighbour. -/
def Quotient.round (q : Quotient) : Nat :=
  let low := q.num / q.den
  let rest := q.num % q.den
  if rest * 2 > q.den ∨ (rest * 2 = q.den ∧ low % 2 = 1) then low + 1 else low

def tenTo (n : Nat) : Nat :=
  Nat.pow 10 n

/-- The quotient times a power of ten. -/
def Quotient.shift (q : Quotient) (places : Int) : Quotient :=
  if places < 0 then ⟨q.num, q.den * tenTo places.natAbs⟩ else ⟨q.num * tenTo places.natAbs, q.den⟩

/-- Digits with a point in front of the last `places`. -/
def pointed (places n : Nat) : Text :=
  let whole := Text.ofNat (n / tenTo places)
  if places = 0 then whole
  else
    let fraction := Text.ofNat (n % tenTo places)
    whole ++ ['.'] ++ List.replicate (places - fraction.length) '0' ++ fraction

/-- The digits with so many places behind the point. -/
def fixed (places : Nat) (q : Quotient) : Text :=
  pointed places (q.shift places).round

/-- The power of ten in the place of the first digit. -/
def Quotient.magnitude (q : Quotient) : Int :=
  if q.num = 0 then 0
  else if q.den ≤ q.num then ((Text.ofNat (q.num / q.den)).length : Int) - 1
  else
    let length := (Text.ofNat (q.den / q.num)).length
    if q.den ≤ q.num * tenTo (length - 1) then 1 - (length : Int) else -(length : Int)

/-- The first digits, `places` of them behind the first one, and the power of ten of that one. -/
def Quotient.leading (places : Nat) (q : Quotient) : Nat × Int :=
  let power := q.magnitude
  let n := (q.shift (places - power)).round
  if n < tenTo (places + 1) then (n, power) else (n / 10, power + 1)

/-- A power of ten behind its mark, in two digits at least. -/
def powerText (power : Int) : Text :=
  let digits := Text.ofNat power.natAbs
  let sign := if power < 0 then '-' else '+'
  ['e', sign] ++ List.replicate (2 - digits.length) '0' ++ digits

/-- One digit in front of the point and a power of ten. -/
def scientific (places : Nat) (q : Quotient) : Text :=
  let (n, power) := q.leading places
  pointed places n ++ powerText power

/-- A fraction without the zeros at its end. -/
def trimmed (t : Text) : Text :=
  if t.contains '.' then Text.dropEnd (· == '.') (Text.dropEnd (· == '0') t) else t

/-- So many digits, with a power of ten only where the point would lie far away. With `all`
zeros at the end stay. -/
def general (all : Bool) (digits : Nat) (q : Quotient) : Text :=
  let places := digits - 1
  let (n, power) := q.leading places
  let shown := fun (t : Text) => if all then t else trimmed t
  if power < -4 ∨ (places : Int) < power then shown (pointed places n) ++ powerText power
  else shown (fixed ((places : Int) - power).toNat q)

/-- Digits by a conversion: `f` for places, `e` for a power of ten, `g` for the shorter form. With
`all` the last keeps zeros at its end. -/
def digitsBy (kind : Char) (all : Bool) (precision : Nat) (q : Quotient) : Text :=
  let digits := match kind.toLower with
    | 'f' => fixed precision q
    | 'e' => scientific precision q
    | _ => general all (max precision 1) q
  if kind.isUpper then digits.map Char.toUpper else digits

/-! ## Binary numbers -/

/-- The nearest quotient whose first `bits` binary digits are the only ones. -/
def Quotient.toBits (bits : Nat) (q : Quotient) : Quotient :=
  if q.num = 0 then q
  else
    let near : Int := (bits : Int) - 1 - ((q.num.log2 : Int) - q.den.log2)
    let scaled := fun (k : Int) =>
      if k < 0 then Quotient.mk q.num (q.den * Nat.pow 2 k.natAbs)
      else ⟨q.num * Nat.pow 2 k.natAbs, q.den⟩
    let low := scaled near
    let k := if low.num / low.den < Nat.pow 2 (bits - 1) then near + 1 else near
    let n := (scaled k).round
    if k < 0 then ⟨n * Nat.pow 2 k.natAbs, 1⟩ else ⟨n, Nat.pow 2 k.natAbs⟩

/-- Whether the sign bit of a number is set. -/
def isNegative (x : Float) : Bool :=
  x.toBits.toNat / Nat.pow 2 63 == 1

/-- The size of a finite number as a quotient. -/
def ofFloat (x : Float) : Quotient :=
  let bits := x.toBits.toNat
  let fraction := bits % Nat.pow 2 52
  let power := bits / Nat.pow 2 52 % 2048
  let (n, power) := if power = 0 then (fraction, 1) else (fraction + Nat.pow 2 52, power)
  if 1075 ≤ power then ⟨n * Nat.pow 2 (power - 1075), 1⟩ else ⟨n, Nat.pow 2 (1075 - power)⟩

/-- A finite number without its fraction. -/
def truncated (x : Float) : Int :=
  let q := ofFloat x
  let n : Int := q.num / q.den
  if isNegative x then -n else n

/-! ## Reading -/

/-- A number as it is written: its digits and the power of ten of the last one. -/
structure Written where
  negative : Bool
  digits : Nat
  power : Int
deriving DecidableEq, Repr

def Written.size (w : Written) : Quotient :=
  (Quotient.mk w.digits 1).shift w.power

def Written.toFloat (w : Written) : Float :=
  let x := Float.ofScientific w.digits (w.power < 0) w.power.natAbs
  if w.negative then -x else x

def valueOf (digits : Text) : Nat :=
  digits.foldl (fun n c => n * 10 + (c.toNat - '0'.toNat)) 0

/-- A power of ten behind its mark, if there is one, and what follows. Far powers are cut. -/
def readPower (t : Text) : Int × Text :=
  match t with
  | c :: rest =>
    if c = 'e' ∨ c = 'E' then
      let (sign, rest) := match rest with
        | '-' :: rest => ((-1 : Int), rest)
        | '+' :: rest => (1, rest)
        | rest => (1, rest)
      let digits := rest.takeWhile Char.isDigit
      if digits.isEmpty then (0, t)
      else (sign * (min (valueOf digits) 100000 : Nat), rest.drop digits.length)
    else (0, t)
  | [] => (0, [])

/-- The number in front of a text and what follows it. -/
def read? (t : Text) : Option (Written × Text) :=
  let (negative, t) := match t with
    | '-' :: rest => (true, rest)
    | '+' :: rest => (false, rest)
    | t => (false, t)
  let whole := t.takeWhile Char.isDigit
  let t := t.drop whole.length
  let fraction := match t with
    | '.' :: rest => rest.takeWhile Char.isDigit
    | _ => []
  if whole.isEmpty && fraction.isEmpty then none
  else
    let t := match t with
      | '.' :: rest => rest.drop fraction.length
      | t => t
    let (power, t) := readPower t
    some (⟨negative, valueOf (whole ++ fraction), power - fraction.length⟩, t)

/-- The number in front of a text as a binary one. -/
def readFloat? (t : Text) : Option (Float × Text) :=
  (read? t).map fun (w, rest) => (w.toFloat, rest)

end StyleBatch.Decimal
