import StyleBatch.Program.Print
import StyleBatch.Program.Records.Token

/-!
# Values of scripts over records

A value is a number or a text. Text that was read as input counts as a number when it looks
like one.
-/

namespace StyleBatch.Records

inductive Value where
  /-- Nothing so far: zero as a number, empty as a text. -/
  | missing
  | number (x : Float)
  | text (t : Text)
  | input (t : Text)

def isBlank (c : Char) : Bool :=
  c == ' ' || c == '\t' || c == '\n'

/-- The number in front of a text, or zero. -/
def leadingNumber (t : Text) : Float :=
  ((Decimal.readFloat? (t.dropWhile isBlank)).map Prod.fst).getD 0

/-- Whether a text is nothing but a number with blanks around it. -/
def looksNumeric (t : Text) : Bool :=
  match Decimal.readFloat? (t.dropWhile isBlank) with
  | some (_, rest) => rest.all isBlank
  | none => false

/-! ## Texts of numbers -/

/-- A number under a conversion to a decimal text: its sign and its digits. -/
def decimalParts (flags : Text) (precision : Option Int) (kind : Char) (x : Float) : Text × Text :=
  let sign : Text := if Decimal.isNegative x then "-" else if flags.contains '+' then "+"
    else if flags.contains ' ' then " " else []
  let places := match precision with
    | some n => if n < 0 then 6 else n.toNat
    | none => 6
  let q := Decimal.ofFloat x
  let digits : Text :=
    if x.isNaN then "nan"
    else if x.isInf then "inf"
    else Decimal.digitsBy kind (flags.contains '#') places q
  (sign, digits)

def filled (flags : Text) (zeros : Bool) (width : Int) (sign body : Text) : Text :=
  Program.bytesAsText (Program.fill (flags.contains '-' || width < 0) zeros width.natAbs
    (Program.ascii sign) (Program.ascii body))

/-- A number by a format of its own, such as `%.6g`. -/
def numberByFormat (format : Text) (x : Float) : Text :=
  let whole := format.takeWhile (· != '%')
  match Program.readConversion .standalone (Program.ascii (format.drop (whole.length + 1))) with
  | (.conversion flags width precision kind, rest) =>
    let amount := fun (a : Option Program.Amount) => match a with
      | some (.written n) => some (n : Int)
      | _ => none
    let (sign, digits) := decimalParts flags (amount precision) kind x
    whole ++ filled flags (flags.contains '0') ((amount width).getD 0) sign digits ++
      Program.bytesAsText rest
  | _ => format

/-- Whether a number is whole and not too great to be written as such. -/
def isWhole (x : Float) : Bool :=
  x == x.floor && x.abs < 18446744073709551616.0

/-- The text of a number: its digits if it is whole, by the format otherwise. -/
def numberText (format : Text) (x : Float) : Text :=
  if isWhole x then Text.ofInt (Decimal.truncated x) else numberByFormat format x

namespace Value

def truth (b : Bool) : Value :=
  .number (if b then 1 else 0)

def ofNat (n : Nat) : Value :=
  .number (Float.ofNat n)

def toNumber : Value → Float
  | missing => 0
  | number x => x
  | text t => leadingNumber t
  | input t => leadingNumber t

/-- The text of a value, numbers by the format. -/
def toText (format : Text) : Value → Text
  | missing => []
  | number x => numberText format x
  | text t => t
  | input t => t

def isNumeric : Value → Bool
  | missing => true
  | number _ => true
  | text _ => false
  | input t => looksNumeric t

def isTrue : Value → Bool
  | missing => false
  | number x => x != 0
  | text t => !t.isEmpty
  | input t => if looksNumeric t then leadingNumber t != 0 else !t.isEmpty

/-- Whether a comparison holds: of numbers if both values are such, of texts otherwise. -/
def compares (format : Text) (comparison : Comparison) (a b : Value) : Bool :=
  if a.isNumeric && b.isNumeric then
    let x := a.toNumber
    let y := b.toNumber
    match comparison with
    | .less => x < y
    | .atMost => x <= y
    | .equal => x == y
    | .differs => x != y
    | .greater => x > y
    | .atLeast => x >= y
  else
    let order := Text.order (a.toText format) (b.toText format)
    match comparison with
    | .less => order.isLT
    | .atMost => order.isLE
    | .equal => order.isEq
    | .differs => order.isNe
    | .greater => order.isGT
    | .atLeast => order.isGE

end Value

/-- A number without its fraction. -/
def wholePart (x : Float) : Float :=
  if x < 0 then x.ceil else x.floor

def Operator.apply (operator : Operator) (x y : Float) : Float :=
  match operator with
  | .plus => x + y
  | .minus => x - y
  | .times => x * y
  | .divided => x / y
  | .modulo => x - y * wholePart (x / y)
  | .power => x.pow y

/-! ## Formats -/

/-- What a format gives: a text, and the trouble that ended it. -/
structure Formatted where
  text : Text
  trouble : Option Text := none

/-- The value of an amount, and the values behind it. -/
def amountOf (amount : Option Program.Amount) (values : List Value) : Option Int × List Value :=
  match amount with
  | none => (none, values)
  | some (.written n) => (some n, values)
  | some .argument =>
    (some (Decimal.truncated ((values.headD .missing).toNumber)), values.tail)

/-- A value under a conversion. -/
def convert (format flags : Text) (width precision : Option Int) (kind : Char) (value : Value) :
    Text :=
  let put := filled flags
  let width := width.getD 0
  if kind = 's' then
    let t := value.toText format
    put false width [] (match precision with
      | some n => if n < 0 then t else t.take n.toNat
      | none => t)
  else if kind = 'c' then
    put false width [] (match value with
      | .number x => [Char.ofNat ((Decimal.truncated x % 256).toNat)]
      | value => (value.toText format ++ ['\x00']).take 1)
  else if ("diouxX" : Text).contains kind then
    let (sign, digits) := Program.integerParts flags kind (Decimal.truncated value.toNumber)
    let body := match precision with
      | some least => List.replicate (least.toNat - digits.length) '0' ++ digits
      | none => digits
    put (flags.contains '0' && precision.isNone) width sign body
  else
    let (sign, digits) := decimalParts flags precision kind value.toNumber
    put (flags.contains '0') width sign digits

/-- Values by a format; `fuel` bounds its length and `n` counts its conversions. -/
def formatFrom (format : Text) : Nat → Nat → Text → List Value → Formatted
  | 0, _, _, _ => ⟨[], none⟩
  | _ + 1, _, [], _ => ⟨[], none⟩
  | fuel + 1, n, '%' :: '%' :: rest, values =>
    let done := formatFrom format fuel n rest values
    { done with text := '%' :: done.text }
  | fuel + 1, n, '%' :: rest, values =>
    match Program.readConversion .standalone (Program.ascii rest) with
    | (.conversion flags width precision kind, more) =>
      let (width, values) := amountOf width values
      let (precision, values) := amountOf precision values
      match values with
      | [] => ⟨[], some "not enough arguments passed to "⟩
      | value :: values =>
        let done := formatFrom format fuel (n + 1) (Program.bytesAsText more) values
        { done with text := convert format flags width precision kind value ++ done.text }
    | (_, _) =>
      ⟨[], some (if values.isEmpty then "not enough arguments passed to "
        else "improper conversion(number " ++ Text.ofNat n ++ ") in ")⟩
  | fuel + 1, n, c :: rest, values =>
    let done := formatFrom format fuel n rest values
    { done with text := c :: done.text }

/-- Values by a format; numbers that are taken as texts have a format of their own. -/
def formatted (format t : Text) (values : List Value) : Formatted :=
  formatFrom format (t.length + 1) 1 t values

/-! ## Pieces -/

/-- The pieces between matches that are not empty, the first of which has begun at the place
`first`; `fuel` bounds their number. -/
def piecesFrom (r : Regex) : Nat → Regex.Spot → Nat → Text → List Text
  | 0, _, _, t => [t]
  | fuel + 1, s, first, t =>
    match r.find? {} s with
    | none => [t]
    | some (start, stop) =>
      if stop.position = start.position then
        match start.rest with
        | [] => [t]
        | c :: rest => piecesFrom r fuel (start.next c rest) first t
      else
        t.take (start.position - first) ::
          piecesFrom r fuel { stop with groups := [] } stop.position stop.rest

def piecesBetween (r : Regex) (t : Text) : List Text :=
  if t.isEmpty then [] else piecesFrom r (t.length + 1) (Regex.Spot.first t) 0 t

/-- The pieces of a text between blanks. -/
def words (t : Text) : List Text :=
  (t.foldr (fun c (pieces : List Text) =>
    if isBlank c then [] :: pieces
    else match pieces with
      | piece :: more => (c :: piece) :: more
      | [] => [[c]]) [[]]).filter fun piece => !piece.isEmpty

/-- What a text is cut at. -/
inductive Separator where
  | blanks
  | each
  | char (c : Char)
  | regex (r : Regex)

/-- A separator as a text writes it. -/
def Separator.read (t : Text) : Except Text Separator :=
  match t with
  | [' '] => .ok .blanks
  | [] => .ok .each
  | [c] => .ok (.char c)
  | t => (readRegex t).map .regex

/-- The pieces of a text. With `lines` line breaks cut as well. -/
def Separator.pieces (separator : Separator) (lines : Bool) (t : Text) : List Text :=
  if t.isEmpty then []
  else match separator with
    | .blanks => words t
    | .each => t.map fun c => [c]
    | .char c => Text.splitAtEach c (if lines then t.map fun d => if d = '\n' then c else d else t)
    | .regex r => if lines then (Text.splitAtEach '\n' t).flatMap (piecesBetween r)
        else piecesBetween r t

/-! ## Replacements -/

/-- What takes the place of a match: `&` stands for the match unless a backslash is in front. -/
def replacement (found : Text) : Text → Text
  | '\\' :: '&' :: rest => '&' :: replacement found rest
  | '\\' :: '\\' :: '&' :: rest => '\\' :: found ++ replacement found rest
  | '&' :: rest => found ++ replacement found rest
  | c :: rest => c :: replacement found rest
  | [] => []

/-- Replaces matches from a spot on, all of them or the first; `adjoins` tells that a match ends
here, behind which there is no empty one. -/
def replaceFrom (r : Regex) (new : Text) (all : Bool) : Nat → Bool → Regex.Spot → Text × Nat
  | 0, _, s => (s.rest, 0)
  | fuel + 1, adjoins, s =>
    let skip := fun (done : Unit → Regex.Spot → Text × Nat) => match s.rest with
      | [] => (([] : Text), 0)
      | c :: rest =>
        let (t, n) := done () (s.next c rest)
        (c :: t, n)
    match Regex.longest? {} r s with
    | none => skip fun _ s => replaceFrom r new all fuel false s
    | some stop =>
      let found := s.rest.take (stop.position - s.position)
      if found.isEmpty then
        if adjoins then skip fun _ s => replaceFrom r new all fuel false s
        else if !all then (replacement [] new ++ s.rest, 1)
        else
          let (t, n) := skip fun _ s => replaceFrom r new all fuel false s
          (replacement [] new ++ t, n + 1)
      else if !all then (replacement found new ++ stop.rest, 1)
      else
        let (t, n) := replaceFrom r new all fuel true { stop with groups := [] }
        (replacement found new ++ t, n + 1)

/-- A text with matches replaced, and how many there were. -/
def replaceMatches (r : Regex) (new : Text) (all : Bool) (t : Text) : Text × Nat :=
  replaceFrom r new all (2 * t.length + 2) false (Regex.Spot.first t)

end StyleBatch.Records
