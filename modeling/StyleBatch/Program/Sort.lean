import StyleBatch.Program.Reading

/-!
# Sorting lines

`sort` compares lines by keys, which are parts of them taken as text or as numbers. Lines
with equal keys come in the order of their bytes, unless they are to keep their order or only the
first of them is wanted.
-/

namespace StyleBatch.Sort

/-- How the text of a key is compared. -/
structure Manner where
  /-- Blanks in front are skipped at the start, and at the end, of the key. -/
  skipsStart : Bool := false
  skipsEnd : Bool := false
  /-- Only letters, digits and blanks count. -/
  dictionary : Bool := false
  foldsCase : Bool := false
  onlyPrinted : Bool := false
  numeric : Bool := false
  reversed : Bool := false
deriving DecidableEq, Repr

/-- A place in a line: so many fields, then so many bytes; without bytes the end of the field. -/
structure Place where
  field : Nat
  byte : Nat
deriving DecidableEq, Repr

structure Key where
  start : Place
  stop? : Option Place
  manner : Manner
deriving DecidableEq, Repr

structure Order where
  keys : List Key
  separator? : Option UInt8
  /-- The order of lines with equal keys is turned. -/
  reversed : Bool
  /-- Lines with equal keys keep their order. -/
  stable : Bool

def isBlank (b : UInt8) : Bool :=
  b == 32 || b == 9 || b == 10

/-! ## Keys -/

/-- How long the field in front is, together with the blanks before it. -/
def fieldLength (line : Bytes) : Nat :=
  let blanks := (line.takeWhile isBlank).length
  blanks + ((line.drop blanks).takeWhile fun b => !isBlank b).length

/-- Where the key starts. -/
def startOf (separator? : Option UInt8) (skips : Bool) (place : Place) (line : Bytes) : Nat :=
  let fields := go place.field 0 line
  let blanks := if skips then ((line.drop fields).takeWhile isBlank).length else 0
  min line.length (fields + blanks + place.byte)
where
  /-- Passes over fields. -/
  go : Nat → Nat → Bytes → Nat
    | 0, n, _ => n
    | fields + 1, n, line =>
      let length := match separator? with
        | some separator =>
          let length := (line.takeWhile (· != separator)).length
          if length < line.length then length + 1 else length
        | none => fieldLength line
      go fields (n + length) (line.drop length)

/-- Where the key ends. -/
def stopOf (separator? : Option UInt8) (skips : Bool) (place : Place) (line : Bytes) : Nat :=
  let fields := go (if place.byte = 0 then place.field + 1 else place.field) 0 line
  let blanks := if skips ∧ place.byte ≠ 0 then ((line.drop fields).takeWhile isBlank).length else 0
  min line.length (fields + blanks + place.byte)
where
  /-- Passes over fields, and over the separator behind each but the last. -/
  go : Nat → Nat → Bytes → Nat
    | 0, n, _ => n
    | fields + 1, n, line =>
      let length := match separator? with
        | some separator =>
          let length := (line.takeWhile (· != separator)).length
          if length < line.length ∧ (fields ≠ 0 ∨ place.byte ≠ 0) then length + 1 else length
        | none => fieldLength line
      go fields (n + length) (line.drop length)

/-- The bytes of a key. -/
def Key.bytes (separator? : Option UInt8) (k : Key) (line : Bytes) : Bytes :=
  let start := startOf separator? k.manner.skipsStart k.start line
  let stop := match k.stop? with
    | some place => stopOf separator? k.manner.skipsEnd place line
    | none => line.length
  (line.take stop).drop start

/-! ## Comparing -/

/-- The order of bytes. -/
def compareBytes : Bytes → Bytes → Ordering
  | [], [] => .eq
  | [], _ :: _ => .lt
  | _ :: _, [] => .gt
  | a :: as, b :: bs => (compare a b).then (compareBytes as bs)

def isDigit (b : UInt8) : Bool :=
  48 ≤ b && b ≤ 57

/-- The number that a text begins with: its digits as a whole number, and how many of them are
behind the point. -/
def number (t : Bytes) : Int × Nat :=
  let t := t.dropWhile isBlank
  let (negative, t) := match t with
    | 45 :: rest => (true, rest)
    | t => (false, t)
  let whole := t.takeWhile isDigit
  let fraction := match t.drop whole.length with
    | 46 :: rest => rest.takeWhile isDigit
    | _ => []
  let value := (whole ++ fraction).foldl (fun (n : Nat) b => n * 10 + (b - 48).toNat) 0
  (if negative then -(value : Int) else value, fraction.length)

def compareNumbers (a b : Bytes) : Ordering :=
  let (m, places) := number a
  let (n, others) := number b
  compare (m * (Nat.pow 10 others : Nat)) (n * (Nat.pow 10 places : Nat))

/-- The bytes that count. -/
def Manner.counted (m : Manner) (t : Bytes) : Bytes :=
  let isLetter := fun (b : UInt8) => (65 ≤ b && b ≤ 90) || (97 ≤ b && b ≤ 122)
  let t := if m.dictionary then t.filter fun b => isLetter b || isDigit b || isBlank b
    else if m.onlyPrinted then t.filter fun b => 32 ≤ b && b < 127
    else t
  if m.foldsCase then t.map fun b => if 97 ≤ b && b ≤ 122 then b - 32 else b else t

def Manner.compare (m : Manner) (a b : Bytes) : Ordering :=
  let found := if m.numeric then compareNumbers a b
    else compareBytes (m.counted a) (m.counted b)
  if m.reversed then found.swap else found

/-- The order of lines by their keys. -/
def Order.compareKeys (o : Order) (a b : Bytes) : Ordering :=
  o.keys.foldl (fun found k =>
    found.then (k.manner.compare (k.bytes o.separator? a) (k.bytes o.separator? b))) .eq

/-- The order of lines. -/
def Order.compare (o : Order) (a b : Bytes) : Ordering :=
  let found := if o.keys.isEmpty then .eq else o.compareKeys a b
  if o.stable && !o.keys.isEmpty then found
  else
    let last := compareBytes a b
    found.then (if o.reversed then last.swap else last)

/-- Whether one of two lines is enough. -/
def Order.isSame (o : Order) (a b : Bytes) : Bool :=
  if o.keys.isEmpty then a == b else o.compareKeys a b == .eq

/-- Leaves the first of lines with equal keys that follow each other. -/
def Order.firsts (o : Order) (lines : List Bytes) : List Bytes :=
  (lines.foldl (fun (kept : List Bytes) line =>
    match kept with
    | last :: _ => if o.isSame last line then kept else line :: kept
    | [] => [line]) []).reverse

def Order.sort (o : Order) (unique : Bool) (lines : List Bytes) : List Bytes :=
  let sorted := lines.mergeSort fun a b => (o.compare a b).isLE
  if unique then o.firsts sorted else sorted

/-- Takes the least of the first lines of files, again and again. -/
def Order.merge (o : Order) (unique : Bool) (files : List (List Bytes)) : List Bytes :=
  let merged := files.foldl (fun done lines => done.merge lines fun a b => (o.compare a b).isLE) []
  if unique then o.firsts merged else merged

/-! ## Arguments -/

/-- A manner with a letter applied; `first` tells at which end of a key the letter stands. -/
def Manner.with? (first : Bool) (m : Manner) (c : Char) : Option Manner :=
  if c = 'b' then
    some (if first then { m with skipsStart := true } else { m with skipsEnd := true })
  else if c = 'd' then some { m with dictionary := true }
  else if c = 'f' then some { m with foldsCase := true }
  else if c = 'i' then some { m with onlyPrinted := true }
  else if c = 'n' ∨ c = 'g' then some { m with numeric := true }
  else if c = 'r' then some { m with reversed := true }
  else none

def Manner.withAll (first : Bool) (m : Manner) : Text → Option Manner
  | [] => some m
  | c :: rest => (m.with? first c).bind fun m => m.withAll first rest

/-- A number in front and what is behind it. -/
def natural? (t : Text) : Option (Nat × Text) :=
  let digits := t.takeWhile Char.isDigit
  (Program.number? digits).map fun n => (n, t.drop digits.length)

/-- A place as fields and bytes, counted from one, and what is behind it. -/
def place? (t : Text) : Option (Nat × Option Nat × Text) := do
  let (field, rest) ← natural? t
  match rest with
  | '.' :: rest =>
    let (byte, rest) ← natural? rest
    return (field, some byte, rest)
  | rest => return (field, none, rest)

/-- A key as it is written, or what is wrong with it. -/
def readKey (t : Text) : Except Text Key :=
  let bad := fun (what : Text) =>
    (.error (what ++ ": invalid field specification " ++ Program.quoteName t) : Except Text Key)
  let (first, last?) := match Text.cutAt? ',' t with
    | some (first, last) => (first, some last)
    | none => (t, none)
  match place? first with
  | none => .error ("invalid number at field start: invalid count at start of " ++
      Program.quoteName t)
  | some (0, _, _) => bad "field number is zero"
  | some (_, some 0, _) => bad "character offset is zero"
  | some (field + 1, byte?, letters) =>
    match Manner.withAll true {} letters with
    | none => bad "stray character in field spec"
    | some m =>
      let start : Place := ⟨field, byte?.getD 1 - 1⟩
      match last? with
      | none => .ok ⟨start, none, m⟩
      | some last =>
        match place? last with
        | none => .error ("invalid number after ',': invalid count at start of " ++
            Program.quoteName last)
        | some (0, _, _) => bad "field number is zero"
        | some (field + 1, byte?, letters) =>
          match m.withAll false letters with
          | none => bad "stray character in field spec"
          | some m => .ok ⟨start, some ⟨field, byte?.getD 0⟩, m⟩

def forms : List Program.OptionForm :=
  [⟨'b', false, "ignore-leading-blanks"⟩, ⟨'d', false, "dictionary-order"⟩,
    ⟨'f', false, "ignore-case"⟩, ⟨'g', false, "general-numeric-sort"⟩,
    ⟨'i', false, "ignore-nonprinting"⟩, ⟨'n', false, "numeric-sort"⟩, ⟨'r', false, "reverse"⟩,
    ⟨'c', false, "check"⟩, { letter := 'C' }, ⟨'k', true, "key"⟩, ⟨'m', false, "merge"⟩,
    ⟨'o', true, "output"⟩, ⟨'s', false, "stable"⟩, ⟨'t', true, "field-separator"⟩,
    ⟨'u', false, "unique"⟩, ⟨'z', false, "zero-terminated"⟩, ⟨'S', true, "buffer-size"⟩,
    ⟨'T', true, "temporary-directory"⟩]

/-- The byte that separates fields. -/
def separator? (value : Text) : Except Text (Option UInt8) :=
  match Utf8.encode value with
  | [] => .error "empty tab"
  | [b] => .ok (some b)
  | [92, 48] => .ok (some 0)
  | _ => .error ("multi-character tab " ++ Program.quoteName value)

/-- The order that options ask for. Keys without letters of their own take those of all. -/
def orderOf (parsed : Program.Parsed) : Except Text Order := do
  let letters := (parsed.options.map Prod.fst).filter fun c => ("bdfginr" : Text).contains c
  let global := ((Manner.withAll true {} letters).bind fun m => m.withAll false letters).getD {}
  let keys ← (parsed.options.filter fun o => o.1 == 'k').mapM fun o => readKey o.2
  let separator? ← match parsed.value? 't' with
    | some value => separator? value
    | none => .ok none
  let plain := { global with reversed := false } == ({} : Manner)
  let keys := if keys.isEmpty then if plain then [] else [⟨⟨0, 0⟩, none, global⟩]
    else keys.map fun k => if k.manner = {} then { k with manner := global } else k
  return ⟨keys, separator?, global.reversed, parsed.has 's' || parsed.has 'u'⟩

/-- The lines of what was read. -/
def linesOf (ending : UInt8) (bytes : Bytes) : List Bytes :=
  let pieces := (bytes.foldr (fun b (pieces : List Bytes) =>
    if b = ending then [] :: pieces
    else match pieces with
      | piece :: more => (b :: piece) :: more
      | [] => [[b]]) [[]])
  if pieces.getLast? = some [] then pieces.dropLast else pieces

/-- The first line that is out of order, with its number. -/
def disorder? (o : Order) (unique : Bool) : Nat → List Bytes → Option (Nat × Bytes)
  | n, a :: b :: rest =>
    if o.compare a b = .gt ∨ (unique ∧ o.isSame a b) then some (n + 1, b)
    else disorder? o unique (n + 1) (b :: rest)
  | _, _ => none

/-- Sorts the lines of what it reads. It stops at the first file that it cannot read. -/
def sort : Program := Program.withOptions 2 forms fun parsed p =>
  match orderOf parsed with
  | .error message => p.complain 2 message
  | .ok order =>
    let names := if parsed.operands.isEmpty then [("-" : Text)] else parsed.operands
    let (readings, unread) := Program.readNames p.disk 0 names p.input
    match readings.find? Program.Reading.failed with
    | some ⟨name, .error fault⟩ =>
      let what : Text := if fault = .isDirectory then "read failed: " else "cannot read: "
      { p.complain 2 (what ++ Program.quoteNameIfNeeded name ++ ": " ++ fault.reason) with unread }
    | _ =>
      let ending : UInt8 := if parsed.has 'z' then 0 else Bytes.lineFeed
      let files := readings.map fun r => linesOf ending r.bytes
      let lines := files.flatten
      if parsed.has 'c' || parsed.has 'C' then
        if let _ :: name :: _ := names then
          let letter := if parsed.has 'c' then 'c' else 'C'
          { p.complain 2 ("extra operand " ++ Program.quoteName name ++ " not allowed with -" ++
              [letter]) with unread }
        else
        match disorder? order (parsed.has 'u') 1 lines with
        | none => { p.exitWith 0 with unread }
        | some (n, line) =>
          if parsed.has 'C' then { p.exitWith 1 with unread }
          else
            let place := names.headD [] ++ ":" ++ Text.ofNat n ++ ": disorder: "
            { p.exitWith 1 with
              unread, errors := Utf8.encode (p.name ++ ": " ++ place) ++ line ++ [Bytes.lineFeed] }
      else
        let sorted := if parsed.has 'm' then order.merge (parsed.has 'u') files
          else order.sort (parsed.has 'u') lines
        let output := sorted.flatMap fun line => line ++ [ending]
        match parsed.value? 'o' with
        | none => { p.print output with unread }
        | some file =>
          match p.disk.write file output with
          | .ok disk => { p.exitWith 0 with unread, disk }
          | .error fault =>
            { p.complain 2 ("open failed: " ++ Program.quoteNameIfNeeded file ++ ": " ++
                fault.reason) with unread }

end StyleBatch.Sort
