import StyleBatch.Text

/-!
# Scripts

The commands of a script as a tree. A word is a list of pieces, since quotes decide what
happens to each piece when the word is expanded; what stands within brackets and behind
operators of parameters is kept as it is written.
-/

namespace StyleBatch.Script

/-- What is done with the value of a parameter. Some operations count an empty value as
missing, some take the longest match of a pattern. -/
inductive Operation where
  | value
  | length
  | default (orEmpty : Bool) (word : Text)
  | assign (orEmpty : Bool) (word : Text)
  | alternative (orEmpty : Bool) (word : Text)
  | demand (orEmpty : Bool) (word : Text)
  | trimStart (longest : Bool) (pattern : Text)
  | trimEnd (longest : Bool) (pattern : Text)
  /-- Nothing that can be done. -/
  | bad
deriving DecidableEq, Repr

inductive Piece where
  | text (t : Text) (quoted : Bool)
  | parameter (name : Text) (operation : Operation) (quoted : Bool)
  /-- The output of a script that begins in a line. -/
  | output (line : Nat) (script : Text) (quoted : Bool)
  | arithmetic (expression : Text) (quoted : Bool)
deriving DecidableEq, Repr

abbrev Word := List Piece

inductive Direction where
  | read
  | write
  /-- Over a file even where files are guarded. -/
  | replace
  | append
  | readWrite
  /-- To where another stream goes, or to nowhere. -/
  | join
  /-- From lines of the script. -/
  | here
deriving DecidableEq, Repr

/-- Where a stream of a command goes to or comes from. -/
structure Redirection where
  stream : Nat
  direction : Direction
  target : Word
deriving DecidableEq, Repr

inductive Command where
  | simple (line : Nat) (assignments : List (Text × Word)) (words : List Word)
      (redirections : List Redirection)
  | pipe (first second : Command)
  | both (first second : Command)
  | either (first second : Command)
  | sequence (first second : Command)
  | negated (command : Command)
  | background (command : Command)
  /-- Runs apart from the rest, so that only its streams and files stay. -/
  | apart (command : Command)
  | redirected (line : Nat) (command : Command) (redirections : List Redirection)
  | choice (condition yes no : Command)
  /-- Repeats while the condition succeeds, or until it does. -/
  | loop (until_ : Bool) (condition body : Command)
  /-- Repeats for each word, or for each argument. -/
  | each (line : Nat) (name : Text) (words : Option (List Word)) (body : Command)
  /-- Looks for the first arm that fits a word. -/
  | select (line : Nat) (subject : Word) (arms : Command)
  | arm (patterns : List Word) (body rest : Command)
  | define (name : Text) (body : Command)
  | nothing
deriving DecidableEq, Repr

/-- Why a script cannot be read, and in which line. -/
structure Trouble where
  line : Nat
  message : Text
deriving DecidableEq, Repr

end StyleBatch.Script
