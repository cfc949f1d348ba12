import StyleBatch.Text.Utf8

/-!
# Globs

Patterns for paths, matched against the bytes of a path. `?`, `*` and classes stand for
bytes within a segment; `**` as a whole segment stands for any number of segments; braces
hold alternatives.

A match works on all places at once: `Glob.rests` takes the parts of the path that are still
to be matched to those that are left behind the glob.
-/

namespace StyleBatch

inductive Glob.Part where
  | exact (bytes : List UInt8)
  | any
  | star
  /-- A byte between bounds, or any other byte. -/
  | among (ranges : List (UInt8 × UInt8)) (negated : Bool)
  /-- Segments in front of the rest, or none. -/
  | leading
  /-- A slash and whatever follows it. -/
  | trailing
  /-- A slash, or segments between two slashes. -/
  | between
  | oneOf (alternatives : List (List Glob.Part))
deriving Repr

abbrev Glob := List Glob.Part

namespace Glob

def slash : UInt8 := 47

/-- What follows each slash of a path. -/
def behindSlashes : List UInt8 → List (List UInt8)
  | [] => []
  | b :: rest => if b = slash then rest :: behindSlashes rest else behindSlashes rest

/-- The ends of a path that begin within its first segment, or with its end. -/
def withinSegment : List UInt8 → List (List UInt8)
  | [] => [[]]
  | b :: rest => if b = slash then [b :: rest] else (b :: rest) :: withinSegment rest

/-- All ends of a path, itself first. -/
def endsOf : List UInt8 → List (List UInt8)
  | [] => [[]]
  | b :: rest => (b :: rest) :: endsOf rest

/-- Whether a byte is between some of the bounds. -/
def isAmong (ranges : List (UInt8 × UInt8)) (b : UInt8) : Bool :=
  ranges.any fun (low, high) => decide (low.toNat ≤ b.toNat) && decide (b.toNat ≤ high.toNat)

/-- Ends of one path without repetitions; such ends differ in length. -/
def distinct (ends : List (List UInt8)) : List (List UInt8) :=
  ends.foldr (fun t kept => if kept.any (fun u => u.length == t.length) then kept else t :: kept) []

/-- What is left of a path behind a part that is no choice. -/
def Part.after (part : Part) (t : List UInt8) : List (List UInt8) :=
  match part, t with
  | .exact bytes, t => if bytes.isPrefixOf t then [t.drop bytes.length] else []
  | .any, b :: rest => if b = slash then [] else [rest]
  | .star, t => withinSegment t
  | .among ranges negated, b :: rest => if isAmong ranges b != negated then [rest] else []
  | .leading, t => t :: behindSlashes t
  | .trailing, b :: rest => if b = slash then endsOf rest else []
  | .between, b :: rest => if b = slash then rest :: behindSlashes rest else []
  | _, _ => []

mutual

/-- What may be left behind a glob, for ends of a path where it may begin. -/
def rests : List Part → List (List UInt8) → List (List UInt8)
  | [], ends => ends
  | .oneOf alternatives :: glob, ends =>
    rests glob (distinct (if alternatives.isEmpty then ends else restsOfAny alternatives ends))
  | part :: glob, ends => rests glob (distinct (ends.flatMap part.after))

/-- What may be left behind one of several globs. -/
def restsOfAny : List (List Part) → List (List UInt8) → List (List UInt8)
  | [], _ => []
  | glob :: globs, ends => rests glob ends ++ restsOfAny globs ends

end

/-- Whether a glob fits a whole path; `**` alone fits every path. -/
def fits (glob : Glob) (path : List UInt8) : Bool :=
  match glob with
  | [.leading] => true
  | _ => (rests glob [path]).any List.isEmpty

end Glob

end StyleBatch
