import StyleBatch.CommandLine

/-!
# The program

Takes the files that a run can see onto a disk, runs the command line on it, writes the
files that the run has changed, prints and ends with the run's code.
-/

namespace StyleBatch.Main

/-- The segments of an absolute path. -/
def segmentsOf (path : Text) : List Text :=
  (Text.splitAtEach '/' path).filter fun s => !s.isEmpty

/-- Puts a file on the disk, if it is there. -/
def addFile (path : Text) (disk : Disk) : IO Disk := do
  let here := (← IO.currentDir) / String.ofList path
  if (← here.pathExists) && !(← here.isDir) then
    return disk.put (segmentsOf path) (.file (← IO.FS.readBinFile here).toList)
  else return disk

/-- Puts a directory on the disk with what is below it, down to a depth. -/
def addTree : Nat → Text → Disk → IO Disk
  | 0, _, disk => return disk
  | depth + 1, path, disk => do
    let here := (← IO.currentDir) / String.ofList path
    let mut disk := disk.put (segmentsOf path) .directory
    for item in ← here.readDir do
      let below := Path.join path item.fileName.toList
      disk ← if ← item.path.isDir then addTree depth below disk else addFile below disk
    return disk

/-- The variables that a run looks at. -/
def bindings : IO Variables := do
  let names := ["HOME", "XDG_CONFIG_HOME", "SASSLINE_AUTHORITATIVE", "SASSLINE_PACKAGING",
    "SASSLINE_COMPILER"]
  let mut found : Variables := []
  for name in names do
    match ← IO.getEnv name with
    | some value => found := Table.set found name.toList value.toList
    | none => pure ()
  return found

/-- The disk of a run: the working directory, the files of settings above it, the user's
settings and what the arguments name elsewhere. -/
def diskFor (arguments : List Text) (bindings : Variables) : IO Disk := do
  let directory := (← IO.currentDir).toString.toList
  let segments := segmentsOf directory
  let mut disk ← addTree 64 directory { Disk.empty with workingDirectory := segments }
  for n in List.range segments.length do
    let above : Text := '/' :: Text.joinWith "/" (segments.take n)
    for name in [".env", ".ignore", ".gitignore"] do
      disk ← addFile (Path.join above name.toList) disk
  disk ← addFile (Config.userFile bindings) disk
  for argument in arguments do
    if Path.isAbsolute argument && !disk.has argument then
      let here := (← IO.currentDir) / String.ofList argument
      disk ← if ← here.isDir then addTree 64 argument disk else addFile argument disk
  return disk

/-- Writes the files that are new or changed. -/
def writeBack (before after : Disk) : IO Unit := do
  for (segments, bytes) in Disk.changedFiles before after do
    IO.FS.createDirAll (String.ofList ('/' :: Text.joinWith "/" segments.dropLast))
    IO.FS.writeBinFile (String.ofList ('/' :: Text.joinWith "/" segments))
      (ByteArray.mk bytes.toArray)

end StyleBatch.Main

open StyleBatch in
def main (arguments : List String) : IO UInt32 := do
  let arguments := arguments.map String.toList
  let bindings ← Main.bindings
  let disk ← Main.diskFor arguments bindings
  let ended := CommandLine.run arguments bindings disk
  Main.writeBack disk ended.disk
  IO.print (String.ofList ended.output)
  IO.eprint (String.ofList ended.errors)
  return UInt32.ofNat ended.code
