import StyleBatch.Fault
import StyleBatch.Ignore.Levels

/-!
# Entry stylesheets

Files are entries as they are given. A directory is walked for the stylesheets below it
that are no partials; its entries come in the order of paths.
-/

namespace StyleBatch.Entries

/-- Whether a file found on a walk is an entry. -/
def isEntry (extension path : Text) : Bool :=
  let isPartial := match Path.fileName? path with
    | some ('_' :: _) => true
    | _ => false
  Path.extension? path == some extension && !isPartial

/-- The files below a directory that no rule hides. The directory is at the given place and
is called `path`; `fuel` bounds the depth. -/
def walk (disk : Disk) : Nat → IgnoreLevels → List Text → Text → List Text
  | 0, _, _, _ => []
  | fuel + 1, levels, directory, path =>
    let levels := levels.enter disk path
    (disk.names directory).flatMap fun name =>
      let place := directory ++ [name]
      let called := Path.join path name
      match disk.find? place with
      | some (.file _) => if levels.passesOver called false then [] else [called]
      | some .directory =>
        if levels.passesOver called true then [] else walk disk fuel levels place called
      | none => []

/-- The entries in a directory. A broken ignore file above it is a fault, one below it has
fewer rules. The name `-` stands for the input, which has no files. -/
def inDirectory (disk : Disk) (bindings : Variables) (extension path : Text) :
    Except Fault (List Text) :=
  match disk.place path with
  | .error _ => .ok []
  | .ok place =>
    if Path.segments path = [['-']] then .ok []
    else
      let levels := IgnoreLevels.before disk bindings path place.segments
      match levels.complaints disk with
      | [] =>
        let files := walk disk (disk.entries.length + 1) levels place.segments path
        .ok ((files.filter (isEntry extension)).mergeSort Path.le)
      | complaints => .error (.io path (Text.joinWith "\n" complaints))

/-- The entries that one argument stands for. -/
def ofPath (disk : Disk) (bindings : Variables) (extension path : Text) :
    Except Fault (List Text) :=
  if disk.isFile path then .ok [path]
  else if disk.has path then inDirectory disk bindings extension path
  else .error (.io path "no such file or directory")

/-- The entries of all arguments; there has to be one. -/
def discover (disk : Disk) (bindings : Variables) (extension : Text) (paths : List Text) :
    Except Fault (List Text) := do
  let entries ← paths.mapM (ofPath disk bindings extension)
  if entries.flatten.isEmpty then throw (.noEntries (Text.joinWith ", " paths))
  return entries.flatten

end StyleBatch.Entries
