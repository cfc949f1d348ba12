import StyleBatch.Bytes
import StyleBatch.Ignore.Glob.Reader
import StyleBatch.Text.Blank

/-!
# Ignore rules

A file of ignore rules has a glob on each line. A rule with a slash inside is about paths
from the file's directory, any other about names at every depth below it. The last rule
that fits decides, and a rule that begins with `!` decides against ignoring.
-/

namespace StyleBatch

inductive Verdict where
  | silent
  | ignored
  | kept
deriving DecidableEq, Repr

namespace Verdict

/-- The first verdict, if it says anything. -/
def orElse (first second : Verdict) : Verdict :=
  match first with
  | silent => second
  | _ => first

end Verdict

structure IgnoreRule where
  glob : Glob
  keeps : Bool
  directoriesOnly : Bool

namespace IgnoreRule

/-- The line without what marks the rule: whether it keeps, whether it is about paths from
the directory, and the rest. -/
def marks (line : Text) : Bool × Bool × Text :=
  match line with
  | '\\' :: '!' :: rest => (false, false, '!' :: rest)
  | '\\' :: '#' :: rest => (false, false, '#' :: rest)
  | '!' :: '/' :: rest => (true, true, rest)
  | '!' :: rest => (true, false, rest)
  | '/' :: rest => (false, true, rest)
  | _ => (false, false, line)

/-- Whether the rule is about directories only, and the rest. -/
def directoryMark (line : Text) : Bool × Text :=
  match Text.before? "/" line with
  | some line => (true, (Text.before? "\\" line).getD line)
  | none => (false, line)

/-- The glob of a rule as it is matched against whole paths. -/
def globText (anchored : Bool) (line : Text) : Text :=
  let anywhere := !(anchored || line.contains '/' || line == ['*', '*'])
  let glob : Text := if anywhere then '*' :: '*' :: '/' :: line else line
  if Text.before? "/**" glob |>.isSome then glob ++ ['/', '*'] else glob

/-- The line without the blanks at its end, unless a backslash keeps the last of them. -/
def trimmed (line : Text) : Text :=
  if (Text.before? "\\ " line).isSome then line else Text.dropEnd Char.isBlank line

/-- The rule that a line writes; comments and blank lines write none. -/
def ofLine (line : Text) : Except GlobFault (Option IgnoreRule) :=
  let line := trimmed line
  if line.isEmpty || line.head? == some '#' then .ok none
  else
    let (keeps, anchored, line) := marks line
    let (directoriesOnly, line) := directoryMark line
    (Glob.read (globText anchored line)).map fun glob => some ⟨glob, keeps, directoriesOnly⟩

/-- What rules say about a path below their directory. -/
def verdict (rules : List IgnoreRule) (path : List UInt8) (isDirectory : Bool) : Verdict :=
  match rules.reverse.find? fun r => (isDirectory || !r.directoriesOnly) && r.glob.fits path with
  | some r => if r.keeps then .kept else .ignored
  | none => .silent

end IgnoreRule

/-! ## Files of rules -/

/-- What is wrong with a line of an ignore file. -/
inductive IgnoreFault where
  | badGlob (line : Text) (fault : GlobFault)
  | notText

def IgnoreFault.message : IgnoreFault → Text
  | badGlob line fault => "error parsing glob '" ++ line ++ "': " ++ fault.message
  | notText => "stream did not contain valid UTF-8"

/-- The rules of an ignore file, and the lines that write none by mistake, by their
numbers. -/
structure IgnoreFile where
  rules : List IgnoreRule := []
  faults : List (Nat × IgnoreFault) := []

namespace IgnoreFile

/-- A line without its line feed and one carriage return in front of it. -/
def withoutLineEnd (line : Bytes) : Bytes :=
  match line.reverse with
  | 10 :: 13 :: rest => rest.reverse
  | 10 :: rest => rest.reverse
  | _ => line

/-- Adds a line. -/
def addLine (number : Nat) (line : Text) (file : IgnoreFile) : IgnoreFile :=
  match IgnoreRule.ofLine line with
  | .ok none => file
  | .ok (some rule) => { file with rules := file.rules ++ [rule] }
  | .error fault =>
    { file with faults := file.faults ++ [(number, .badGlob (IgnoreRule.trimmed line) fault)] }

/-- Adds lines up to one that is not UTF-8. Byte order marks in front of the first line do
not count. -/
def addLines : Nat → List Bytes → IgnoreFile → IgnoreFile
  | _, [], file => file
  | number, line :: rest, file =>
    match Utf8.decode? (withoutLineEnd line) with
    | none => { file with faults := file.faults ++ [(number, .notText)] }
    | some t =>
      let t := if number = 1 then t.dropWhile (· == '\uFEFF') else t
      addLines (number + 1) rest (addLine number t file)

def ofBytes (bytes : Bytes) : IgnoreFile :=
  addLines 1 (Bytes.lines bytes) {}

/-- What is said about a file with faults; being no text is passed over if it is the only
one. -/
def complaints (path : Text) (file : IgnoreFile) : List Text :=
  match file.faults with
  | [(_, .notText)] => []
  | faults => faults.map fun (number, fault) =>
    path ++ ": line " ++ Text.ofNat number ++ ": " ++ fault.message

end IgnoreFile

end StyleBatch
