import StyleBatch.Program.Regex

/-!
# Scripts of the stream editor

An editing script is a list of commands, each with the lines that it applies to. Blocks are marked
by the commands that open and close them, so that a jump is a place in the list.
-/

namespace StyleBatch.Editor

/-- An expression with its options; without one the last one that was used counts. -/
structure Search where
  regex? : Option Regex
  options : Regex.Options
deriving DecidableEq, Repr

inductive Address where
  | line (n : Nat)
  /-- A line and every so many lines behind it. -/
  | every (first step : Nat)
  | last
  | match (search : Search)
deriving DecidableEq, Repr

/-- Where a range of lines ends. -/
inductive RangeEnd where
  | address (a : Address)
  | after (count : Nat)
  | multiple (n : Nat)
deriving DecidableEq, Repr

/-- The lines that a command applies to. -/
inductive Scope where
  | all
  | at (a : Address)
  | range (first : Address) (last : RangeEnd)
deriving DecidableEq, Repr

/-- A part of a replacement. -/
inductive Piece where
  | text (t : Text)
  | group (n : Nat)
  /-- A change of case from here on: `L`, `U`, `l`, `u`, or `E` for none. -/
  | case (mark : Char)
deriving DecidableEq, Repr

structure Substitution where
  search : Search
  replacement : List Piece
  /-- All matches from the counted one on. -/
  all : Bool
  count : Nat
  prints : Bool
  file? : Option Text
deriving DecidableEq, Repr

inductive Action where
  | openBlock
  | closeBlock
  | label (name : Text)
  /-- Commands of one letter without arguments. -/
  | plain (letter : Char)
  | append (t : Text)
  | insert (t : Text)
  | change (t : Text)
  /-- `b`, `t` or `T`; without a name to the end of the script. -/
  | jump (letter : Char) (name : Text)
  | quit (prints : Bool) (code : Nat)
  | list (width : Option Nat)
  | readFile (name : Text)
  | writeFile (name : Text)
  | exchange (pairs : List (Char × Char))
  | substitute (s : Substitution)
deriving DecidableEq, Repr

structure Command where
  scope : Scope
  negated : Bool
  action : Action
deriving DecidableEq, Repr

end StyleBatch.Editor
