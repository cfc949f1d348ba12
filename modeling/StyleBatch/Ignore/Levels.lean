import StyleBatch.Ignore.Repository
import StyleBatch.Ignore.Rules

/-!
# Levels of ignore rules

Each directory on the way to a path has its ignore files. A walk has levels for the
directories that it has entered, with paths as they are spelt on the walk, and levels for
the directories above its start, with paths from the root. A level nearer to the path comes
first, and rules of `.ignore` come before those of a repository.
-/

namespace StyleBatch

/-- The rules of one directory. -/
structure IgnoreLevel where
  directory : Text
  /-- Rules of `.ignore`. -/
  own : IgnoreFile
  /-- Rules of `.gitignore`, which count within a repository only. -/
  tracked : IgnoreFile
  /-- Rules that the repository keeps for itself. -/
  excluded : IgnoreFile
  isRepository : Bool

namespace IgnoreLevel

/-- The path without `./` in front. -/
def withoutDot (path : Text) : Text :=
  (Text.after? "./" path).getD path

/-- The rules in a file, if it is there. -/
def fileAt (disk : Disk) (path : Text) : IgnoreFile :=
  match disk.read path with
  | .ok bytes => IgnoreFile.ofBytes bytes
  | .error _ => {}

def ofDirectory (disk : Disk) (directory : Text) : IgnoreLevel where
  directory := directory
  own := fileAt disk (Path.join directory ".ignore")
  tracked := fileAt disk (Path.join directory ".gitignore")
  excluded := match Repository.ownRules? disk directory with
    | some path => fileAt disk path
    | none => {}
  isRepository := Repository.isTop disk directory

/-- What is said about the ignore files of a level. -/
def complaints (disk : Disk) (level : IgnoreLevel) : List Text :=
  let excluded := match Repository.ownRules? disk level.directory with
    | some path => level.excluded.complaints path
    | none => []
  level.own.complaints (Path.join level.directory ".ignore") ++
    level.tracked.complaints (Path.join level.directory ".gitignore") ++ excluded

/-- A path as it is seen from a directory, if it is spelt as a path below it. -/
def seenFrom (directory path : Text) : Text :=
  let path := withoutDot path
  let directory := withoutDot directory
  if Path.segments directory = [['.']] ∨ !path.contains '/' then path
  else match Text.after? directory path with
    | some rest => (Text.after? "/" rest).getD rest
    | none => path

/-- What rules from a directory say about a path. -/
def verdictFrom (directory : Text) (file : IgnoreFile) (path : Text) (isDirectory : Bool) :
    Verdict :=
  IgnoreRule.verdict file.rules (Utf8.encode (seenFrom directory path)) isDirectory

end IgnoreLevel

/-- All rules of a walk. -/
structure IgnoreLevels where
  /-- Levels of the directories entered, the innermost first. -/
  entered : List IgnoreLevel
  /-- Levels of the directories above the start, the nearest first. -/
  above : List IgnoreLevel
  /-- The start of the walk as it is spelt, and from the root. -/
  start : Text × Text
  /-- The user's rules, and the directory that they are seen from. -/
  user : Text × IgnoreFile

namespace IgnoreLevels

/-- A path of the walk from the root. -/
def fromRoot (levels : IgnoreLevels) (path : Text) : Text :=
  let (spelt, place) := levels.start
  let below :=
    if Path.segments spelt = [['.']] then path
    else
      let rest := (Text.after? (IgnoreLevel.withoutDot spelt) path).getD path
      (Text.after? "/" rest).getD rest
  Path.join place below

/-- The levels with the path that each of them looks at. -/
def views (levels : IgnoreLevels) (path : Text) : List (IgnoreLevel × Text) :=
  let rooted := fromRoot levels path
  levels.entered.map (fun level => (level, path)) ++ levels.above.map fun level => (level, rooted)

/-- The first verdict of a kind of rules. -/
def firstVerdict (file : IgnoreLevel → IgnoreFile) (isDirectory : Bool)
    (views : List (IgnoreLevel × Text)) : Verdict :=
  views.foldr (fun (level, path) later =>
    (IgnoreLevel.verdictFrom level.directory (file level) path isDirectory).orElse later) .silent

/-- The levels up to the first repository; none if there is no repository. -/
def withinRepository (views : List (IgnoreLevel × Text)) : List (IgnoreLevel × Text) :=
  match views.findIdx? fun (level, _) => level.isRepository with
  | some i => views.take (i + 1)
  | none => []

/-- What all rules say about a path. The user's rules come last, and only in a repository. -/
def verdict (levels : IgnoreLevels) (path : Text) (isDirectory : Bool) : Verdict :=
  let path := IgnoreLevel.withoutDot path
  let views := views levels path
  let repository := withinRepository views
  let user := if repository.isEmpty then .silent
    else IgnoreLevel.verdictFrom levels.user.1 levels.user.2 path isDirectory
  (firstVerdict IgnoreLevel.own isDirectory views).orElse
    ((firstVerdict IgnoreLevel.tracked isDirectory repository).orElse
      ((firstVerdict IgnoreLevel.excluded isDirectory repository).orElse user))

/-- Whether a name is hidden: it begins with a dot and does not end in one. -/
def isHidden (path : Text) : Bool :=
  match (Text.splitAtEach '/' path).getLast? with
  | some ('.' :: rest) => !rest.isEmpty && rest.getLast? != some '.'
  | _ => false

/-- Whether a walk passes over a path. Hidden names are passed over unless a rule keeps
them. -/
def passesOver (levels : IgnoreLevels) (path : Text) (isDirectory : Bool) : Bool :=
  match verdict levels path isDirectory with
  | .ignored => true
  | .kept => false
  | .silent => isHidden path

/-- The levels of a walk that has entered one more directory. -/
def enter (disk : Disk) (directory : Text) (levels : IgnoreLevels) : IgnoreLevels :=
  { levels with entered := IgnoreLevel.ofDirectory disk directory :: levels.entered }

/-- A path from the root. -/
def rooted (segments : List Text) : Text :=
  '/' :: Text.joinWith "/" segments

/-- The levels of a walk before it enters its start, which lies at the given place. -/
def before (disk : Disk) (bindings : Variables) (spelt : Text) (place : List Text) :
    IgnoreLevels where
  entered := []
  above := ((List.range place.length).map fun n =>
    IgnoreLevel.ofDirectory disk (rooted (place.take n))).reverse
  start := (spelt, rooted place)
  user := (rooted disk.workingDirectory,
    match Repository.userRules? disk bindings with
    | some path => IgnoreLevel.fileAt disk path
    | none => {})

/-- What is said about the ignore files above the start, from the root down. -/
def complaints (disk : Disk) (levels : IgnoreLevels) : List Text :=
  levels.above.reverse.flatMap (IgnoreLevel.complaints disk)

end IgnoreLevels

end StyleBatch
