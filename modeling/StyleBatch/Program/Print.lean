import StyleBatch.Program.Decimal
import StyleBatch.Program.Options
import StyleBatch.Program.Replace

/-!
# Printing arguments

`echo` prints its arguments with blanks between them. `printf` prints them by a format,
which is used again while arguments are left. Both exist as programs of their own and as
commands of a script, with different escapes and complaints.
-/

namespace StyleBatch.Program

/-- Whether printing is done by a program of its own or within a script. -/
inductive Dialect where
  | standalone
  | script
deriving DecidableEq, Repr

def hexDigit? (b : UInt8) : Option Nat :=
  if 48 ≤ b && b ≤ 57 then some (b.toNat - 48)
  else if 97 ≤ b && b ≤ 102 then some (b.toNat - 87)
  else if 65 ≤ b && b ≤ 70 then some (b.toNat - 55)
  else none

/-- What a backslash and the bytes behind it stand for, and the bytes that follow; nothing
where the output ends. -/
def readEscape (dialect : Dialect) (rest : Bytes) : Option (Bytes × Bytes) :=
  match rest with
  | [] => some ([92], [])
  | 92 :: rest => some ([92], rest)
  | 99 :: rest => if dialect = .standalone then none else some ([92, 99], rest)
  | 101 :: rest => some ([27], rest)
  | 120 :: rest =>
    let digits := (rest.take 2).takeWhile fun b => (hexDigit? b).isSome
    if dialect = .standalone && !digits.isEmpty then
      let value := digits.foldl (fun n b => n * 16 + (hexDigit? b).getD 0) 0
      some ([UInt8.ofNat value], rest.drop digits.length)
    else some ([92, 120], rest)
  | b :: rest =>
    let (e, more) := escapedByte b rest
    if e = b && !isOctal b then some ([92, b], more) else some ([e], more)

/-- An escape in text that is printed: here a zero stands in front of octal digits, and `\c`
ends the output everywhere. -/
def readTextEscape (dialect : Dialect) (rest : Bytes) : Option (Bytes × Bytes) :=
  match rest with
  | 99 :: _ => none
  | 48 :: rest =>
    let (b, more) := octal rest
    some ([b], more)
  | rest => readEscape dialect rest

/-- A text with its escapes replaced, and whether the output ends with it. -/
def unescape (dialect : Dialect) : Nat → Bytes → Bytes × Bool
  | 0, _ => ([], false)
  | _ + 1, [] => ([], false)
  | fuel + 1, b :: rest =>
    if b = 92 then
      match readTextEscape dialect rest with
      | none => ([], true)
      | some (bytes, more) =>
        let (tail, stop) := unescape dialect fuel more
        (bytes ++ tail, stop)
    else
      let (tail, stop) := unescape dialect fuel rest
      (b :: tail, stop)

def unescaped (dialect : Dialect) (bytes : Bytes) : Bytes × Bool :=
  unescape dialect (bytes.length + 1) bytes

/-- Arguments with blanks between them. -/
def joined (arguments : List Text) : Bytes :=
  Utf8.encode (Text.joinWith " " arguments)

/-- `echo` as a program of its own: `-n` leaves out the line feed, `-e` reads escapes. -/
def echo : Program := fun p =>
  let isOption := fun (a : Text) => match a with
    | '-' :: c :: rest => (c :: rest).all fun c => c == 'n' || c == 'e' || c == 'E'
    | _ => false
  let options := (p.arguments.takeWhile isOption).flatMap fun a => a.drop 1
  let bytes := joined (p.arguments.dropWhile isOption)
  let ending := if options.contains 'n' then [] else [Bytes.lineFeed]
  let escapes := (options.reverse.find? (· != 'n')) == some 'e'
  let (bytes, stop) := if escapes then unescaped .standalone bytes else (bytes, false)
  p.print (if stop then bytes else bytes ++ ending)

/-- `echo` within a script, which always reads escapes. -/
def scriptEcho : Program := fun p =>
  let (quiet, arguments) := match p.arguments with
    | ['-', 'n'] :: rest => (true, rest)
    | arguments => (false, arguments)
  let (bytes, stop) := unescaped .script (joined arguments)
  p.print (if stop || quiet then bytes else bytes ++ [Bytes.lineFeed])

/-- Prints the path of the working directory. -/
def pwd : Program := fun p =>
  p.print (Utf8.encode ('/' :: Text.joinWith "/" p.disk.workingDirectory ++ ['\n']))

/-! ## Formats -/

/-- A width or a precision: as it is written, or taken from the arguments. -/
inductive Amount where
  | written (n : Nat)
  | argument
deriving DecidableEq, Repr

inductive Directive where
  | bytes (bytes : Bytes)
  | conversion (flags : Text) (width precision : Option Amount) (kind : Char)
  /-- The output ends here. -/
  | stop
  /-- The output ends here with a complaint. -/
  | broken (complaint : Text)
deriving DecidableEq, Repr

/-- An amount in front of a format. -/
def readAmount (t : Bytes) : Option Amount × Bytes :=
  match t with
  | 42 :: rest => (some .argument, rest)
  | t =>
    let digits := t.takeWhile fun b => 48 ≤ b && b ≤ 57
    if digits.isEmpty then (none, t)
    else (some (.written (digits.foldl (fun n b => n * 10 + (b.toNat - 48)) 0)),
      t.drop digits.length)

def conversionKinds : Text :=
  "diouxXcsbfFeEgG"

/-- A conversion behind its percent sign. -/
def readConversion (dialect : Dialect) (t : Bytes) : Directive × Bytes :=
  let flags := t.takeWhile fun b => (ascii "-+ #0").contains b
  let (width, rest) := readAmount (t.drop flags.length)
  let (precision, rest) := match rest with
    | 46 :: rest =>
      let (amount, rest) := readAmount rest
      (some (amount.getD (.written 0)), rest)
    | rest => (none, rest)
  let rest := rest.dropWhile fun b => (ascii "hlLqjzt").contains b && dialect = .standalone
  let text := fun (bytes : Bytes) => bytes.map fun b => Char.ofNat b.toNat
  match rest with
  | [] =>
    (.broken (if dialect = .script then "missing format character"
      else ('%' :: text t) ++ ": invalid conversion specification"), [])
  | b :: rest =>
    let kind := Char.ofNat b.toNat
    if conversionKinds.contains kind then (.conversion (text flags) width precision kind, rest)
    else
      let written := '%' :: text (t.take (t.length - rest.length))
      let trouble : Text := if dialect = .script then ": invalid directive"
        else ": invalid conversion specification"
      (.broken (written ++ trouble), [])

/-- The directives of a format; bytes that stand for themselves come one by one. -/
def readFormat (dialect : Dialect) : Nat → Bytes → List Directive
  | 0, _ => []
  | _ + 1, [] => []
  | fuel + 1, 92 :: 34 :: rest => .bytes [34] :: readFormat dialect fuel rest
  | fuel + 1, 92 :: rest =>
    match readEscape dialect rest with
    | none => [.stop]
    | some (bytes, more) => .bytes bytes :: readFormat dialect fuel more
  | fuel + 1, 37 :: 37 :: rest => .bytes [37] :: readFormat dialect fuel rest
  | fuel + 1, 37 :: rest =>
    match readConversion dialect rest with
    | (.broken complaint, _) => [.broken complaint]
    | (directive, more) => directive :: readFormat dialect fuel more
  | fuel + 1, b :: rest => .bytes [b] :: readFormat dialect fuel rest

/-! ## Numbers -/

/-- The value of digits in a base, and what follows them. -/
def digitsIn (base : Nat) (t : Text) : Option (Nat × Text) :=
  let value? := fun (c : Char) =>
    (hexDigit? (UInt8.ofNat (if c.toNat < 128 then c.toNat else 0))).filter (· < base)
  let digits := t.takeWhile fun c => (value? c).isSome
  if digits.isEmpty then none
  else some (digits.foldl (fun n c => n * base + (value? c).getD 0) 0, t.drop digits.length)

/-- The number in front of a text, with its base, and what follows it. -/
def leadingNumber? (t : Text) : Option (Int × Text) :=
  let t := t.dropWhile fun c => c == ' ' || c == '\t' || c == '\n'
  let (negative, t) := match t with
    | '-' :: rest => (true, rest)
    | '+' :: rest => (false, rest)
    | t => (false, t)
  let found := match t with
    | '0' :: 'x' :: rest => (digitsIn 16 rest).orElse fun _ => some (0, 'x' :: rest)
    | '0' :: 'X' :: rest => (digitsIn 16 rest).orElse fun _ => some (0, 'X' :: rest)
    | '0' :: rest => digitsIn 8 ('0' :: rest)
    | t => digitsIn 10 t
  found.map fun (n, rest) => (if negative then -(n : Int) else n, rest)

/-- The number of an argument and the trouble with it. A quote in front takes the code of the
character behind it. -/
def argumentNumber (dialect : Dialect) (argument : Text) : Int × Option Text :=
  match argument with
  | [] => (0, none)
  | '"' :: rest => ((rest.headD '\x00').toNat, none)
  | '\x27' :: rest => ((rest.headD '\x00').toNat, none)
  | t =>
    let shown := if dialect = .script then t else quoteName t
    match leadingNumber? t with
    | none =>
      (0, some (shown ++ (if dialect = .script then ": expected numeric value"
        else ": expected a numeric value")))
    | some (n, []) => (n, none)
    | some (n, _) =>
      (n, some (shown ++ (if dialect = .script then ": not completely converted"
        else ": value not completely converted")))

/-- An integer under a conversion, before it is padded: a sign or a base, and digits. -/
def integerParts (flags : Text) (kind : Char) (n : Int) : Text × Text :=
  if kind = 'd' ∨ kind = 'i' then
    let sign : Text := if n < 0 then "-" else if flags.contains '+' then "+"
      else if flags.contains ' ' then " " else []
    (sign, Text.ofNat n.natAbs)
  else
    let n := if n < 0 then 18446744073709551616 - n.natAbs else n.natAbs
    if kind = 'x' then
      (if flags.contains '#' && n != 0 then "0x" else [], Nat.toDigits 16 n)
    else if kind = 'X' then
      (if flags.contains '#' && n != 0 then "0X" else [], (Nat.toDigits 16 n).map Char.toUpper)
    else if kind = 'o' then
      (if flags.contains '#' && n != 0 then "0" else [], Nat.toDigits 8 n)
    else ([], Text.ofNat n)

/-- The decimal number of an argument, its sign in front, and the trouble with it. It has as many
binary digits as the dialect keeps. -/
def argumentDecimal (dialect : Dialect) (argument : Text) :
    Bool × Decimal.Quotient × Option Text :=
  let bits := if dialect = .script then 53 else 64
  match argument with
  | [] => (false, ⟨0, 1⟩, none)
  | '"' :: rest => (false, ⟨(rest.headD '\x00').toNat, 1⟩, none)
  | '\x27' :: rest => (false, ⟨(rest.headD '\x00').toNat, 1⟩, none)
  | t =>
    let shown := if dialect = .script then t else quoteName t
    match Decimal.read? (t.dropWhile fun c => c == ' ' || c == '\t' || c == '\n') with
    | none =>
      (false, ⟨0, 1⟩, some (shown ++ (if dialect = .script then ": expected numeric value"
        else ": expected a numeric value")))
    | some (w, rest) =>
      let trouble : Text := if dialect = .script then ": not completely converted"
        else ": value not completely converted"
      (w.negative, w.size.toBits bits, if rest.isEmpty then none else some (shown ++ trouble))

/-! ## Printing -/

/-- What a use of a format has done so far. -/
structure Printed where
  /-- The output, the last byte first. -/
  reversed : Bytes := []
  arguments : List Text
  complaints : List Text := []
  /-- Whether an argument was asked for. -/
  used : Bool := false
  stopped : Bool := false
  /-- Whether the format could not be read. -/
  broken : Bool := false

def Printed.write (bytes : Bytes) (s : Printed) : Printed :=
  { s with reversed := bytes.reverse ++ s.reversed }

def Printed.next (s : Printed) : Text × Printed :=
  (s.arguments.headD [], { s with arguments := s.arguments.tail, used := true })

def Printed.complain (trouble : Option Text) (s : Printed) : Printed :=
  { s with complaints := s.complaints ++ trouble.toList }

/-- The value of an amount. -/
def Printed.amount (dialect : Dialect) (amount : Option Amount) (s : Printed) :
    Option Int × Printed :=
  match amount with
  | none => (none, s)
  | some (.written n) => (some n, s)
  | some .argument =>
    let (argument, s) := s.next
    let (n, trouble) := argumentNumber dialect argument
    (some n, s.complain trouble)

/-- Fills up to a width: on the right, or on the left with blanks or zeros behind the sign. -/
def fill (left zeros : Bool) (width : Nat) (sign body : Bytes) : Bytes :=
  let missing := width - (sign ++ body).length
  if left then sign ++ body ++ List.replicate missing 32
  else if zeros then sign ++ List.replicate missing 48 ++ body
  else List.replicate missing 32 ++ sign ++ body

/-- Prints by one directive. -/
def Printed.follow (dialect : Dialect) (s : Printed) (directive : Directive) : Printed :=
  if s.stopped then s
  else match directive with
  | .bytes bytes => s.write bytes
  | .stop => { s with stopped := true }
  | .broken complaint => { s.complain (some complaint) with stopped := true, broken := true }
  | .conversion flags width precision kind =>
    let (width, s) := s.amount dialect width
    let (precision, s) := s.amount dialect precision
    let (argument, s) := s.next
    let left := flags.contains '-' || (width.getD 0) < 0
    let put := fun (zeros : Bool) (sign body : Bytes) =>
      fill left zeros (width.getD 0).natAbs sign body
    let cut := fun (bytes : Bytes) => match precision with
      | some n => if n < 0 then bytes else bytes.take n.toNat
      | none => bytes
    if kind = 's' then s.write (put false [] (cut (Utf8.encode argument)))
    else if kind = 'c' then s.write (put false [] ((Utf8.encode argument ++ [0]).take 1))
    else if kind = 'b' then
      let (bytes, stop) := unescaped dialect (Utf8.encode argument)
      { s.write (put false [] (cut bytes)) with stopped := stop }
    else if ("diouxX" : Text).contains kind then
      let (n, trouble) := argumentNumber dialect argument
      let (sign, digits) := integerParts flags kind n
      let body := match precision with
        | some least => List.replicate (least.toNat - digits.length) '0' ++ digits
        | none => digits
      let zeros := flags.contains '0' && precision.isNone
      (s.complain trouble).write (put zeros (ascii sign) (ascii body))
    else
      let (negative, q, trouble) := argumentDecimal dialect argument
      let places := match precision with
        | some n => if n < 0 then 6 else n.toNat
        | none => 6
      let sign : Text := if negative then "-" else if flags.contains '+' then "+"
        else if flags.contains ' ' then " " else []
      let digits := Decimal.digitsBy kind (flags.contains '#') places q
      (s.complain trouble).write (put (flags.contains '0') (ascii sign) (ascii digits))

/-- Uses a format until no argument is left; `fuel` bounds the uses. -/
def Printed.useAll (dialect : Dialect) (format : List Directive) : Nat → Printed → Printed
  | 0, s => s
  | fuel + 1, s =>
    let s := format.foldl (Printed.follow dialect) { s with used := false }
    if s.used && !s.arguments.isEmpty && !s.stopped then useAll dialect format fuel s else s

/-- Prints arguments by a format. -/
def printBy (dialect : Dialect) (format : Text) (arguments : List Text) (p : Process) :
    Finished :=
  let bytes := Utf8.encode format
  let directives := readFormat dialect (bytes.length + 1) bytes
  let s := Printed.useAll dialect directives (arguments.length + 1) { arguments }
  let excess := match s.arguments with
    | first :: _ =>
      if dialect = .standalone && !s.stopped && !s.used then
        ["warning: ignoring excess arguments, starting with " ++ quoteName first]
      else []
    | [] => []
  let code := if s.complaints.isEmpty then 0 else if s.broken ∧ dialect = .script then 2 else 1
  { p.exitWith code with
    output := s.reversed.reverse
    errors := (s.complaints ++ excess).flatMap fun c =>
      Utf8.encode (p.name ++ ": " ++ c ++ ['\n']) }

def printf (dialect : Dialect) : Program := fun p =>
  let arguments := match p.arguments with
    | ['-', '-'] :: rest => rest
    | arguments => arguments
  match arguments with
  | [] =>
    if dialect = .standalone then p.misuse 1 "missing operand"
    else p.complain 2 "usage: printf format [arg ...]"
  | format :: arguments => printBy dialect format arguments p

end StyleBatch.Program
