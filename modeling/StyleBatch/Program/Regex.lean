import StyleBatch.Program.Pattern

/-!
# Regular expressions

Expressions and where they match. A match leaves a spot behind it. Of the matches that start
first the longest counts; `ends` gives the spots in the order of preference, one for
each place, since two spots at the same place allow the same continuations.
-/

namespace StyleBatch

/-- Places between characters. -/
inductive Edge where
  | lineStart
  | lineEnd
  | textStart
  | textEnd
  | wordStart
  | wordEnd
  | word
  | noWord
deriving DecidableEq, Repr

inductive Regex where
  | empty
  | char (c : Char)
  | any
  | set (negated : Bool) (items : List SetItem)
  | edge (edge : Edge)
  | group (n : Nat) (r : Regex)
  | both (a b : Regex)
  | either (a b : Regex)
  | star (r : Regex)
  /-- What a group holds. -/
  | same (n : Nat)
deriving DecidableEq, Repr

namespace Regex

/-- How letters and lines are taken. -/
structure Options where
  ignoreCase : Bool := false
  /-- Every line of the text has a start and an end. -/
  lines : Bool := false
deriving DecidableEq, Repr

/-- A place in a text, with what the groups hold there. -/
structure Spot where
  position : Nat
  before : Option Char
  rest : Text
  groups : List (Nat × Text)

/-- The start of a text. -/
def Spot.first (t : Text) : Spot :=
  ⟨0, none, t, []⟩

/-- The spot behind a character. -/
def Spot.next (s : Spot) (c : Char) (rest : Text) : Spot :=
  { s with position := s.position + 1, before := some c, rest }

/-- The spots behind a character that passes. -/
def Spot.takeIf (s : Spot) (p : Char → Bool) : List Spot :=
  match s.rest with
  | c :: rest => if p c then [s.next c rest] else []
  | [] => []

/-- The spots behind a text. -/
def Spot.takeText (same : Char → Char → Bool) : Text → Spot → List Spot
  | [], s => [s]
  | d :: t, s =>
    match s.rest with
    | c :: rest => if same d c then takeText same t (s.next c rest) else []
    | [] => []

def Spot.group? (s : Spot) (n : Nat) : Option Text :=
  (s.groups.find? fun g => g.1 == n).map Prod.snd

def isWordChar (c : Char) : Bool :=
  c.isAlphanum || c == '_'

def Edge.holds (options : Options) (s : Spot) : Edge → Bool
  | .textStart => s.before.isNone
  | .textEnd => s.rest.isEmpty
  | .lineStart => s.before.isNone || (options.lines && s.before == some '\n')
  | .lineEnd => s.rest.isEmpty || (options.lines && s.rest.head? == some '\n')
  | .wordStart => !s.before.any isWordChar && s.rest.head?.any isWordChar
  | .wordEnd => s.before.any isWordChar && !s.rest.head?.any isWordChar
  | .word => s.before.any isWordChar != s.rest.head?.any isWordChar
  | .noWord => s.before.any isWordChar == s.rest.head?.any isWordChar

def Options.same (options : Options) (a b : Char) : Bool :=
  a == b || (options.ignoreCase && a.toLower == b.toLower)

def Options.holds (options : Options) (negated : Bool) (items : List SetItem) (c : Char) : Bool :=
  let among := fun (c : Char) => items.any (SetItem.holds c)
  (among c || (options.ignoreCase && (among c.toLower || among c.toUpper))) != negated

/-- The first spot at each place. -/
def firsts (spots : List Spot) : List Spot :=
  (spots.foldl (fun (kept : List Spot) s =>
    if kept.any fun k => k.position == s.position then kept else s :: kept) []).reverse

/-- The spots behind any number of steps, those of more steps in front. Places that are `seen` are
not gone through again. Every step takes a character, so the text that is left bounds their
number. -/
def starEnds (step : Spot → List Spot) : Text → List Nat → Spot → List Spot × List Nat
  | [], seen, s => ([s], seen)
  | _ :: left, seen, s =>
    if seen.contains s.position then ([], seen)
    else
      let (behind, seen) := (step s).foldl (fun (behind, seen) next =>
        if next.position = s.position then (behind, seen)
        else
          let (more, seen) := starEnds step left seen next
          (behind ++ more, seen)) ([], s.position :: seen)
      (behind ++ [s], seen)

/-- The spots behind the matches that start at a spot. -/
def ends (options : Options) : Regex → Spot → List Spot
  | .empty, s => [s]
  | .char c, s => s.takeIf (options.same c)
  | .any, s => s.takeIf fun _ => true
  | .set negated items, s => s.takeIf (options.holds negated items)
  | .edge e, s => if Edge.holds options s e then [s] else []
  | .group n r, s =>
    (ends options r s).map fun e =>
      { e with groups := (n, s.rest.take (e.position - s.position)) :: e.groups }
  | .both a b, s => firsts ((ends options a s).flatMap (ends options b))
  | .either a b, s => firsts (ends options a s ++ ends options b s)
  | .star r, s => (starEnds (ends options r) s.rest [] s).1
  | .same n, s =>
    match s.group? n with
    | some t => s.takeText options.same t
    | none => []

/-- The spot behind the longest match that starts at a spot. -/
def longest? (options : Options) (r : Regex) (s : Spot) : Option Spot :=
  (ends options r s).foldl (fun best e =>
    match best with
    | some b => if e.position > b.position then some e else some b
    | none => some e) none

/-- The first match at or behind a spot: where it starts and the spot behind it; `fuel` bounds
the number of starts. -/
def search (options : Options) (r : Regex) : Nat → Spot → Option (Spot × Spot)
  | 0, _ => none
  | fuel + 1, s =>
    match longest? options r s with
    | some e => some (s, e)
    | none =>
      match s.rest with
      | c :: rest => search options r fuel (s.next c rest)
      | [] => none

/-- The first match at or behind a spot. -/
def find? (options : Options) (r : Regex) (s : Spot) : Option (Spot × Spot) :=
  search options r (s.rest.length + 1) s

/-- Whether an expression matches some part of a text. -/
def isIn (options : Options) (r : Regex) (t : Text) : Bool :=
  (find? options r (Spot.first t)).isSome

/-- So many of the same. -/
def times (r : Regex) : Nat → Regex
  | 0 => .empty
  | 1 => r
  | n + 2 => .both r (times r (n + 1))

/-- At most so many of the same, rather more than fewer. -/
def atMost (r : Regex) : Nat → Regex
  | 0 => .empty
  | n + 1 => .either (.both r (atMost r n)) .empty

/-- At least and at most so many of the same. -/
def repeated (r : Regex) (least : Nat) (most : Option Nat) : Regex :=
  let more := match most with
    | none => .star r
    | some most => atMost r (most - least)
  match least, more with
  | 0, more => more
  | least, .empty => times r least
  | least, more => .both (times r least) more

end Regex

end StyleBatch
