import StyleBatch.Text

/-!
# Paths

Slash-separated paths as texts: joining, the directory part, the file name and its
extension. Empty segments and `.` segments count for nothing, except a `.` in front.
-/

namespace StyleBatch.Path

def isAbsolute (path : Text) : Bool :=
  path.head? == some '/'

/-- Appends a path; an absolute one replaces what stands before it. -/
def join (base path : Text) : Text :=
  if isAbsolute path then path
  else if base.isEmpty || base.getLast? == some '/' then base ++ path
  else base ++ '/' :: path

/-- `dropBlankSegments` on the reversed path. -/
def dropBlankSegmentsRev : Text → Text
  | ['/'] => ['/']
  | '/' :: rest => dropBlankSegmentsRev rest
  | '.' :: '/' :: rest => dropBlankSegmentsRev ('/' :: rest)
  | t => t

/-- Drops the empty and `.` segments at the end of a path; a root slash stays. -/
def dropBlankSegments (path : Text) : Text :=
  (dropBlankSegmentsRev path.reverse).reverse

/-- The last segment and what stands before it; nothing for the empty path and the root. -/
def splitLast? (path : Text) : Option (Text × Text) :=
  match dropBlankSegments path with
  | [] => none
  | ['/'] => none
  | path =>
    match Text.cutAtLast? '/' path with
    | none => some ([], path)
    | some ([], segment) => some (['/'], segment)
    | some (directory, segment) => some (dropBlankSegments directory, segment)

/-- The directory part. -/
def parent? (path : Text) : Option Text :=
  (splitLast? path).map Prod.fst

/-- The last segment, unless it is `.` or `..`. -/
def fileName? (path : Text) : Option Text :=
  match splitLast? path with
  | some (_, segment) => if segment = "." ∨ segment = ".." then none else some segment
  | none => none

/-- The path with another last segment. -/
def withFileName (name path : Text) : Text :=
  match fileName? path with
  | some _ => join ((parent? path).getD []) name
  | none => join path name

/-- What follows the last dot of the file name, if something precedes that dot. -/
def extension? (path : Text) : Option Text := do
  let name ← fileName? path
  match Text.cutAtLast? '.' name with
  | some (_ :: _, extension) => some extension
  | _ => none

/-- The segments that count, `/` for the root among them. -/
def segments (path : Text) : List Text :=
  let counted := (Text.splitAtEach '/' path).filter fun s => !(s.isEmpty || s == ['.'])
  if isAbsolute path then ['/'] :: counted
  else if (Text.splitAtEach '/' path).head? == some ['.'] then ['.'] :: counted
  else counted

/-- Order of segments, by the code points of the first two that differ. -/
def compareSegments : List Text → List Text → Ordering
  | [], [] => .eq
  | [], _ :: _ => .lt
  | _ :: _, [] => .gt
  | s :: rest, t :: more => (Text.order s t).then (compareSegments rest more)

/-- Order of paths: by segments, and by code points in a segment. -/
def le (a b : Text) : Bool :=
  (compareSegments (segments a) (segments b)).isLE

end StyleBatch.Path
