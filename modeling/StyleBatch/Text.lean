/-!
# Text

Text is a list of characters; offsets into it are counted in UTF-8 bytes.
String literals stand for their character lists.
-/

namespace StyleBatch

abbrev Text := List Char

scoped instance : Coe String Text := ⟨String.toList⟩

namespace Text

/-- Number of bytes of the UTF-8 form. -/
def byteSize (t : Text) : Nat :=
  t.foldr (fun c n => c.utf8Size + n) 0

/-- Decimal digits of a natural number. -/
def ofNat (n : Nat) : Text :=
  Nat.toDigits 10 n

/-- Decimal digits of an integer, with a leading minus sign when it is negative. -/
def ofInt (n : Int) : Text :=
  if n < 0 then '-' :: ofNat n.natAbs else ofNat n.natAbs

/-- Text before and after the first occurrence of `mark`. -/
def cut? (mark : Text) : Text → Option (Text × Text)
  | [] => if mark.isEmpty then some ([], []) else none
  | c :: rest =>
    if mark.isPrefixOf (c :: rest) then some ([], (c :: rest).drop mark.length)
    else (cut? mark rest).map fun (before, after) => (c :: before, after)

/-- Whether `mark` stands somewhere in the text. -/
def holds (mark t : Text) : Bool :=
  (cut? mark t).isSome

/-- The first occurrence of `mark` becomes `replacement`. -/
def replaceFirst (mark replacement t : Text) : Text :=
  match cut? mark t with
  | some (before, after) => before ++ replacement ++ after
  | none => t

/-- Text before and after the first `c`. -/
def cutAt? (c : Char) : Text → Option (Text × Text)
  | [] => none
  | d :: rest =>
    if d = c then some ([], rest)
    else (cutAt? c rest).map fun (before, after) => (d :: before, after)

/-- Text before and after the last `c`. -/
def cutAtLast? (c : Char) : Text → Option (Text × Text)
  | [] => none
  | d :: rest =>
    match cutAtLast? c rest with
    | some (before, after) => some (d :: before, after)
    | none => if d = c then some ([], rest) else none

/-- The text after `start`, when it begins with `start`. -/
def after? (start t : Text) : Option Text :=
  if start.isPrefixOf t then some (t.drop start.length) else none

/-- The text before `ending`, when it ends in `ending`. -/
def before? (ending t : Text) : Option Text :=
  if ending.isSuffixOf t then some (t.take (t.length - ending.length)) else none

/-- Drops the longest end of the text that has only characters in `p`. -/
def dropEnd (p : Char → Bool) (t : Text) : Text :=
  (t.reverse.dropWhile p).reverse

/-- Pieces between the occurrences of `c`; one more than there are occurrences. -/
def splitAtEach (c : Char) : Text → List Text
  | [] => [[]]
  | d :: rest =>
    if d = c then [] :: splitAtEach c rest
    else match splitAtEach c rest with
      | piece :: pieces => (d :: piece) :: pieces
      | [] => [[d]]

/-- Pieces with `separator` between each two. -/
def joinWith (separator : Text) : List Text → Text
  | [] => []
  | [t] => t
  | t :: rest => t ++ separator ++ joinWith separator rest

/-- Pads with blanks on the right up to `width` characters. -/
def padEnd (width : Nat) (t : Text) : Text :=
  t ++ List.replicate (width - t.length) ' '

/-- Order by code points. -/
def order : Text → Text → Ordering
  | [], [] => .eq
  | [], _ :: _ => .lt
  | _ :: _, [] => .gt
  | c :: s, d :: t =>
    if c.toNat < d.toNat then .lt else if d.toNat < c.toNat then .gt else order s t

/-- Small letters for the capital letters of ASCII. -/
def lowerAscii (t : Text) : Text :=
  t.map Char.toLower

end Text

end StyleBatch
