import StyleBatch.Disk

/-!
# Patterns

Patterns with `*`, `?` and sets in brackets, as scripts match words and file names. A
character of a pattern may be quoted; then it stands for itself.
-/

namespace StyleBatch

/-- What a set in brackets holds. -/
inductive SetItem where
  | range (low high : Char)
  | named (name : Text)
deriving DecidableEq, Repr

namespace SetItem

/-- Whether a character belongs to a class of characters. -/
def isOfClass (name : Text) (c : Char) : Bool :=
  if name = "alpha" then c.isAlpha
  else if name = "digit" then c.isDigit
  else if name = "alnum" then c.isAlphanum
  else if name = "upper" then c.isUpper
  else if name = "lower" then c.isLower
  else if name = "space" then c == ' ' || (9 ≤ c.toNat && c.toNat ≤ 13)
  else if name = "blank" then c == ' ' || c == '\t'
  else if name = "punct" then 33 ≤ c.toNat && c.toNat ≤ 126 && !c.isAlphanum
  else if name = "print" then 32 ≤ c.toNat && c.toNat ≠ 127
  else if name = "graph" then 33 ≤ c.toNat && c.toNat ≠ 127
  else if name = "cntrl" then c.toNat < 32 || c.toNat == 127
  else if name = "xdigit" then c.isDigit || ('a' ≤ c && c ≤ 'f') || ('A' ≤ c && c ≤ 'F')
  else false

def holds (c : Char) : SetItem → Bool
  | .range low high => low.toNat ≤ c.toNat && c.toNat ≤ high.toNat
  | .named name => isOfClass name c

end SetItem

/-- One part of a pattern. -/
inductive PatternPart where
  | char (c : Char)
  | any
  | anyText
  | set (negated : Bool) (items : List SetItem)
deriving DecidableEq, Repr

abbrev Pattern := List PatternPart

namespace Pattern

/-- A character of a pattern as it is written, and whether it is quoted. -/
abbrev Written := List (Char × Bool)

/-- The name of a class behind its opening mark. -/
def className? : Written → Option (Text × Written)
  | (':', _) :: (']', _) :: rest => some ([], rest)
  | (c, _) :: rest => (className? rest).map fun (name, rest) => (c :: name, rest)
  | [] => none

/-- The items of a set through its closing bracket; `first` says that none has come yet. -/
def setItems? : Nat → Bool → Written → Option (List SetItem × Written)
  | 0, _, _ => none
  | _ + 1, _, [] => none
  | fuel + 1, first, (c, quoted) :: rest =>
    if c = ']' && !quoted && !first then some ([], rest)
    else
      let found := match c, quoted, rest with
        | '[', false, (':', false) :: more => className? more
        | _, _, _ => none
      match found with
      | some (name, rest) =>
        (setItems? fuel false rest).map fun (items, rest) => (.named name :: items, rest)
      | none =>
        match rest with
        | ('-', false) :: (high, q) :: more =>
          if high = ']' && !q then
            (setItems? fuel false rest).map fun (items, rest) => (.range c c :: items, rest)
          else
            (setItems? fuel false more).map fun (items, rest) => (.range c high :: items, rest)
        | _ => (setItems? fuel false rest).map fun (items, rest) => (.range c c :: items, rest)

/-- The parts of a pattern. A bracket that is not closed stands for itself. -/
def readParts : Nat → Written → Pattern
  | 0, _ => []
  | _ + 1, [] => []
  | fuel + 1, (c, quoted) :: rest =>
    if quoted then .char c :: readParts fuel rest
    else if c = '*' then .anyText :: readParts fuel rest
    else if c = '?' then .any :: readParts fuel rest
    else if c = '[' then
      let (negated, inside) := match rest with
        | ('!', false) :: more => (true, more)
        | ('^', false) :: more => (true, more)
        | _ => (false, rest)
      match setItems? (inside.length + 1) true inside with
      | some (items, rest) => .set negated items :: readParts fuel rest
      | none => .char c :: readParts fuel rest
    else if c = '\\' then
      match rest with
      | (d, _) :: rest => .char d :: readParts fuel rest
      | [] => [.char c]
    else .char c :: readParts fuel rest

def read (written : Written) : Pattern :=
  readParts (written.length + 1) written

def PatternPart.fits (c : Char) : PatternPart → Bool
  | .char d => c == d
  | .any => true
  | .anyText => false
  | .set negated items => (items.any (SetItem.holds c)) != negated

/-- A text and what is left of it after each of its characters. -/
def suffixes : Text → List Text
  | [] => [[]]
  | c :: rest => (c :: rest) :: suffixes rest

/-- What may be left of a text when a pattern has taken its start, the longest rest first. -/
def rests : Pattern → Text → List Text
  | [], t => [t]
  | .anyText :: parts, t => ((suffixes t).flatMap (rests parts)).eraseDups
  | part :: parts, c :: t => if PatternPart.fits c part then rests parts t else []
  | _ :: _, [] => []

/-- Whether a pattern takes all of a text. -/
def fits (pattern : Pattern) (t : Text) : Bool :=
  (rests pattern t).any List.isEmpty

/-- Whether a pattern as it is written is more than a text. -/
def isMagic (written : Written) : Bool :=
  (read written).any fun part => match part with
    | .char _ => false
    | _ => true

/-- The text that a pattern stands for if it is not taken as one. -/
def plainText (written : Written) : Text :=
  written.map Prod.fst

/-- A text without the start, or the end, that a pattern takes. -/
def trimStart (longest : Bool) (pattern : Pattern) (t : Text) : Text :=
  let all := rests pattern t
  let shortestRest := all.foldl (fun best rest =>
    if rest.length < best.length then rest else best) (all.headD t)
  let longestRest := all.foldl (fun best rest =>
    if rest.length > best.length then rest else best) (all.headD t)
  if longest then shortestRest else longestRest

def trimEnd (longest : Bool) (pattern : Pattern) (t : Text) : Text :=
  let starts := (List.range (t.length + 1)).filter fun n => fits pattern (t.drop n)
  match if longest then starts.head? else starts.getLast? with
  | some n => t.take n
  | none => t

/-! ## File names -/

/-- Pieces of a pattern between slashes. -/
def segmentsOf : Written → List Written
  | [] => [[]]
  | (c, quoted) :: rest =>
    if c = '/' then [] :: segmentsOf rest
    else match segmentsOf rest with
      | piece :: pieces => ((c, quoted) :: piece) :: pieces
      | [] => [[(c, quoted)]]

/-- The paths below `here` that segments of a pattern lead to. -/
def pathsFrom (disk : Disk) (here : Text) : List Written → List Text
  | [] => [here]
  | [last] => step disk here last
  | segment :: rest =>
    (step disk here segment).flatMap fun path =>
      if path = here ∨ disk.isDirectory path ∨ path.isEmpty then
        pathsFrom disk (path ++ ['/']) rest
      else []
where
  /-- The paths that one segment leads to. -/
  step (disk : Disk) (here : Text) (segment : Written) : List Text :=
    if !isMagic segment then
      let path := here ++ plainText segment
      if segment.isEmpty ∨ disk.has path then [path] else []
    else
      let names := match disk.place (if here.isEmpty then "." else here) with
        | .ok place => disk.names place.segments
        | .error _ => []
      let pattern := read segment
      (names.filter fun name =>
        fits pattern name && (name.head? != some '.' || pattern.head? == some (.char '.'))).map
        fun name => here ++ name

/-- The paths that a pattern stands for, in the order of their texts. -/
def paths (disk : Disk) (written : Written) : List Text :=
  if !isMagic written then []
  else (pathsFrom disk [] (segmentsOf written)).mergeSort fun a b => (Text.order a b).isLE

end Pattern

end StyleBatch
