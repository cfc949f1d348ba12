import StyleBatch.Ignore.Glob

/-!
# Reading globs

A backslash takes away the meaning of what follows it, except in classes. `**` is a part of
its own only as a whole segment, or at either end of an alternative in braces; it then takes
the place of what was read last. A bracket that is never closed stands for itself.
-/

namespace StyleBatch

/-- What is wrong with the text of a glob. -/
inductive GlobFault where
  | badRange (low high : Char)
  | unopenedBrace
  | unclosedBrace
  | danglingEscape
deriving DecidableEq, Repr

def GlobFault.message : GlobFault → Text
  | badRange low high => "invalid range; " ++ [low] ++ " > " ++ [high]
  | unopenedBrace => "unopened alternate group; missing '\x7b' (maybe escape '\x7d' with '[\x7d]'?)"
  | unclosedBrace => "unclosed alternate group; missing '\x7d' (maybe escape '\x7b' with '[\x7b]'?)"
  | danglingEscape => "dangling '\\'"

namespace Glob

/-! ## Classes -/

/-- How the reading of a class ended. -/
inductive ClassReading where
  | closed (ranges : List (Char × Char)) (rest : Text)
  | unclosed
  | bad (fault : GlobFault)

/-- Reads a class up to its closing bracket. The ranges are kept with the last one first;
`first` holds for the first character, which may be a bracket, and `open?` says that a
hyphen waits for the end of the last range. -/
def classTail (ranges : List (Char × Char)) (first open? : Bool) : Text → ClassReading
  | [] => .unclosed
  | c :: rest =>
    if c = ']' ∧ !first then
      .closed (if open? then ('-', '-') :: ranges else ranges).reverse rest
    else if c = '-' ∧ !first ∧ !open? then classTail ranges false true rest
    else match open?, ranges with
      | true, (low, _) :: before =>
        if c < low then .bad (.badRange low c) else classTail ((low, c) :: before) false false rest
      | _, _ => classTail ((c, c) :: ranges) false false rest

/-- The bytes that a range of characters stands for, byte by byte. -/
def byteRanges (range : Char × Char) : List (UInt8 × UInt8) :=
  let low := String.utf8EncodeChar range.1
  let high := String.utf8EncodeChar range.2
  let single := List.map fun (b : UInt8) => (b, b)
  if range.1 = range.2 then single low
  else match low.getLast?, high with
    | some from?, upTo :: rest => single low.dropLast ++ [(from?, upTo)] ++ single rest
    | _, _ => []

/-! ## Parts -/

/-- An alternative group that is being read: what stands before it, and the alternatives
that are complete. -/
structure Group where
  before : List Part
  alternatives : List (List Part)

/-- Where the reading of a glob stands. -/
structure Reading where
  parts : List Part := []
  /-- The groups around the parts, the innermost first. -/
  groups : List Group := []
  /-- The character read last. -/
  last : Option Char := none
  /-- Whether brackets stand for themselves. -/
  plainBrackets : Bool := false

namespace Reading

def push (part : Part) (last : Char) (r : Reading) : Reading :=
  { r with parts := r.parts ++ [part], last := some last }

/-- Whether `**` stands where a segment or an alternative begins. -/
def atStart (r : Reading) : Bool :=
  r.last == some '/' || (!r.groups.isEmpty && (r.last == some ',' || r.last == some '\x7b'))

/-- Puts a part for `**` in the place of what was read last; behind another such part it adds
nothing. -/
def replaceLast (part : Part) (last : Char) (r : Reading) : Reading :=
  let parts := match r.parts.getLast? with
    | some .leading => r.parts
    | some .trailing => r.parts
    | _ => r.parts.dropLast ++ [part]
  { r with parts, last := some last }

/-- Reads `**`, and the slash behind it where the two go together; gives what follows. -/
def doubleStar (rest : Text) (r : Reading) : Reading × Text :=
  let twoStars := (r.push .star '*', rest)
  if r.parts.isEmpty then
    match rest with
    | [] => (r.push .leading '*', [])
    | '/' :: rest => (r.push .leading '/', rest)
    | _ => twoStars
  else if !r.atStart then twoStars
  else match rest with
    | [] => (r.replaceLast .trailing '*', [])
    | '/' :: rest => (r.replaceLast .between '/', rest)
    | c :: _ =>
      if !r.groups.isEmpty ∧ (c = ',' ∨ c = '\x7d') then (r.replaceLast .trailing '*', rest)
      else twoStars

/-- Begins a group of alternatives. -/
def openGroup (r : Reading) : Reading :=
  { r with parts := [], groups := ⟨r.parts, []⟩ :: r.groups, last := some '\x7b' }

/-- Begins the next alternative of a group. -/
def nextAlternative (r : Reading) : Reading :=
  match r.groups with
  | [] => r.push (.exact [44]) ','
  | group :: outer =>
    { r with
      parts := []
      groups := { group with alternatives := group.alternatives ++ [r.parts] } :: outer
      last := some ',' }

/-- Whether parts stand for the empty text alone. -/
def isVoid (parts : List Part) : Bool :=
  parts.all fun part => match part with
    | .oneOf [] => true
    | _ => false

/-- Ends a group of alternatives. Those that stand for the empty text do not count. -/
def closeGroup (r : Reading) : Except GlobFault Reading :=
  match r.groups with
  | [] => .error .unopenedBrace
  | group :: outer =>
    let alternatives := (group.alternatives ++ [r.parts]).filter fun a => !isVoid a
    .ok { r with
      parts := group.before ++ [.oneOf alternatives], groups := outer, last := some '\x7d' }

/-- Reads a class behind its opening bracket, or the bracket alone. -/
def bracket (rest : Text) (r : Reading) : Except GlobFault (Reading × Text) :=
  let (negated, inside) := match rest with
    | '!' :: inside => (true, inside)
    | '^' :: inside => (true, inside)
    | inside => (false, inside)
  match classTail [] true false inside with
  | .closed ranges rest => .ok (r.push (.among (ranges.flatMap byteRanges) negated) ']', rest)
  | .unclosed => .ok ({ r.push (.exact [91]) '[' with plainBrackets := true }, rest)
  | .bad fault => .error fault

/-- Reads one part that begins with the character `c`. -/
def step (c : Char) (rest : Text) (r : Reading) : Except GlobFault (Reading × Text) :=
  if c = '?' then .ok (r.push .any c, rest)
  else if c = '*' then
    match rest with
    | '*' :: rest => .ok (r.doubleStar rest)
    | _ => .ok (r.push .star c, rest)
  else if c = '[' ∧ !r.plainBrackets then r.bracket rest
  else if c = '\x7b' then .ok (r.openGroup, rest)
  else if c = '\x7d' then (r.closeGroup).map fun r => (r, rest)
  else if c = ',' then .ok (r.nextAlternative, rest)
  else if c = '\\' then
    match rest with
    | [] => .error .danglingEscape
    | d :: rest => .ok (r.push (.exact (String.utf8EncodeChar d)) d, rest)
  else .ok (r.push (.exact (String.utf8EncodeChar c)) c, rest)

/-- Reads to the end; `fuel` bounds the parts. -/
def run : Nat → Text → Reading → Except GlobFault Reading
  | 0, _, r => .ok r
  | _ + 1, [], r => .ok r
  | fuel + 1, c :: rest, r =>
    match r.step c rest with
    | .ok (r, rest) => run fuel rest r
    | .error fault => .error fault

end Reading

/-- The glob that a text writes. -/
def read (t : Text) : Except GlobFault Glob :=
  match Reading.run (t.length + 1) t {} with
  | .error fault => .error fault
  | .ok r => if r.groups.isEmpty then .ok r.parts else .error .unclosedBrace

end Glob

end StyleBatch
