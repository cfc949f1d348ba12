import StyleBatch.Path
import StyleBatch.Specifier

/-!
# Lexical joining

Joins a specifier to a base path and removes `.` and `..` segments without looking at
any file. A relative path may keep leading `..` segments, an absolute one has none.
-/

namespace StyleBatch.Path

/-- Takes one more segment; the stack has the last segment on top. -/
def climb (absolute : Bool) (stack : List Text) (segment : Text) : List Text :=
  if segment = [] ∨ segment = "." then stack
  else if segment = ".." then
    match stack with
    | [] => if absolute then [] else [".."]
    | top :: rest =>
      if top = ".." then (if absolute then stack else ".." :: stack) else rest
  else segment :: stack

/-- The segments of a path with `.` and `..` worked out. -/
def collapsedSegments (path : Text) : List Text :=
  ((Text.splitAtEach '/' path).foldl (climb (isAbsolute path)) []).reverse

/-- The path with `.` and `..` worked out. -/
def collapse (path : Text) : Text :=
  let joined := Text.joinWith "/" (collapsedSegments path)
  if isAbsolute path then '/' :: joined else joined

/-- A relative specifier is joined to the base; any other stands for itself. -/
def resolve (base specifier : Text) : Text :=
  collapse (if Specifier.isRelative specifier then base ++ specifier else specifier)

end StyleBatch.Path
