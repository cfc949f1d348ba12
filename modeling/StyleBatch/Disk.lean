import StyleBatch.Bytes
import StyleBatch.Path
import StyleBatch.Table
import StyleBatch.Text.Utf8

/-!
# Disks

A disk holds files and directories by their segments below the root, and has a working
directory for relative paths. There are no links, so every directory has one name.
Looking up a path needs each segment but the last to be a directory. The directories of the
system and the null device are on every disk.
-/

namespace StyleBatch

/-- What the system refuses, by cause. -/
inductive DiskFault where
  | notFound
  | notPermitted
  | exists
  | notDirectory
  | isDirectory
  | nameTooLong
  | holdsNul
  | notText
deriving DecidableEq, Repr

namespace DiskFault

/-- What the system calls it. -/
def reason : DiskFault → Text
  | notFound => "No such file or directory"
  | notPermitted => "Permission denied"
  | .exists => "File exists"
  | notDirectory => "Not a directory"
  | isDirectory => "Is a directory"
  | nameTooLong => "File name too long"
  | holdsNul => "file name contained an unexpected NUL byte"
  | notText => "stream did not contain valid UTF-8"

/-- The system's number for it; two faults are found before the system is asked. -/
def number? : DiskFault → Option Nat
  | notFound => some 2
  | notPermitted => some 13
  | .exists => some 17
  | notDirectory => some 20
  | isDirectory => some 21
  | nameTooLong => some 36
  | holdsNul => none
  | notText => none

/-- The reason, with the number where there is one. -/
def message (fault : DiskFault) : Text :=
  match fault.number? with
  | some n => fault.reason ++ " (os error " ++ Text.ofNat n ++ ")"
  | none => fault.reason

end DiskFault

/-- What a name stands for. -/
inductive Entry where
  | file (bytes : Bytes)
  | directory
deriving DecidableEq, Repr

structure Disk where
  workingDirectory : List Text
  entries : Table (List Text) Entry
deriving DecidableEq, Repr

/-- Where a path leads; a trailing slash asks for a directory. -/
structure Place where
  segments : List Text
  asDirectory : Bool
deriving DecidableEq, Repr

namespace Disk

def empty : Disk :=
  ⟨[], []⟩

/-- Directories that are always there. -/
def systemDirectories : List (List Text) :=
  [[], ["bin"], ["dev"], ["etc"], ["lib"], ["opt"], ["proc"], ["root"], ["sbin"], ["tmp"], ["usr"],
    ["usr", "bin"], ["usr", "lib"], ["usr", "local"], ["usr", "local", "bin"],
    ["usr", "local", "sbin"], ["usr", "sbin"], ["usr", "share"], ["var"], ["var", "tmp"]]

/-- The device that is empty and takes everything. -/
def nullDevice : List Text :=
  ["dev", "null"]

/-- The entry at a place. -/
def find? (disk : Disk) (segments : List Text) : Option Entry :=
  if segments = nullDevice then some (.file [])
  else if segments.length ≤ 3 ∧ systemDirectories.contains segments then some .directory
  else Table.get? disk.entries segments

/-- Walks from the directory `here` along segments, of which the last need not exist. -/
def walk (disk : Disk) (here : List Text) : List Text → Except DiskFault (List Text)
  | [] => .ok here
  | segment :: rest =>
    let there := if segment = ".." then here.dropLast
      else if segment = "." then here
      else here ++ [segment]
    if Text.byteSize segment > 255 then .error .nameTooLong
    else match rest with
      | [] => .ok there
      | _ :: _ =>
        match find? disk there with
        | some .directory => walk disk there rest
        | some (.file _) => .error .notDirectory
        | none => .error .notFound

/-- Where a path leads. -/
def place (disk : Disk) (path : Text) : Except DiskFault Place :=
  if path.contains '\x00' then .error .holdsNul
  else if path.isEmpty then .error .notFound
  else if Text.byteSize path ≥ 4096 then .error .nameTooLong
  else
    let start := if Path.isAbsolute path then [] else disk.workingDirectory
    let raw := Text.splitAtEach '/' path
    match walk disk start (raw.filter fun s => !s.isEmpty) with
    | .ok segments => .ok ⟨segments, raw.getLast? == some []⟩
    | .error fault => .error fault

/-- The entry that a path leads to. -/
def lookup (disk : Disk) (path : Text) : Except DiskFault Entry :=
  match place disk path with
  | .error fault => .error fault
  | .ok place =>
    match find? disk place.segments with
    | none => .error .notFound
    | some .directory => .ok .directory
    | some (.file bytes) => if place.asDirectory then .error .notDirectory else .ok (.file bytes)

/-- Whether a path leads to anything. -/
def has (disk : Disk) (path : Text) : Bool :=
  match lookup disk path with
  | .ok _ => true
  | .error _ => false

/-- Whether a path leads to a file; a device is none. -/
def isFile (disk : Disk) (path : Text) : Bool :=
  match place disk path, lookup disk path with
  | .ok place, .ok (.file _) => place.segments != nullDevice
  | _, _ => false

def isDirectory (disk : Disk) (path : Text) : Bool :=
  match lookup disk path with
  | .ok .directory => true
  | _ => false

/-- The bytes of a file. -/
def read (disk : Disk) (path : Text) : Except DiskFault (Bytes) :=
  match lookup disk path with
  | .ok (.file bytes) => .ok bytes
  | .ok .directory => .error .isDirectory
  | .error fault => .error fault

/-- The text of a file. -/
def readText (disk : Disk) (path : Text) : Except DiskFault Text :=
  match read disk path with
  | .error fault => .error fault
  | .ok bytes =>
    match Utf8.decode? bytes with
    | some t => .ok t
    | none => .error .notText

/-- Creates a file or gives it new bytes. -/
def write (disk : Disk) (path : Text) (bytes : Bytes) : Except DiskFault Disk :=
  match place disk path with
  | .error fault => .error fault
  | .ok place =>
    if place.asDirectory then .error .isDirectory
    else match find? disk place.segments with
      | some .directory => .error .isDirectory
      | _ =>
        if place.segments = nullDevice then .ok disk
        else .ok { disk with entries := Table.set disk.entries place.segments (.file bytes) }

/-- Opens a file for writing: it is created, or loses its bytes. Also tells where the file
lies. -/
def create (disk : Disk) (path : Text) : Except DiskFault (List Text × Disk) :=
  match place disk path with
  | .error fault => .error fault
  | .ok place => (write disk path []).map fun disk => (place.segments, disk)

/-- Writes bytes into an open file from its beginning on; what lies behind them stays. -/
def overwrite (disk : Disk) (file : List Text) (bytes : Bytes) : Disk :=
  match find? disk file with
  | some (.file old) =>
    if file = nullDevice then disk
    else { disk with
      entries := Table.set disk.entries file (.file (bytes ++ old.drop bytes.length)) }
  | _ => disk

/-- Creates one directory. -/
def makeDirectory (disk : Disk) (path : Text) : Except DiskFault Disk :=
  match place disk path with
  | .error fault => .error fault
  | .ok place =>
    match find? disk place.segments with
    | some _ => .error .exists
    | none => .ok { disk with entries := Table.set disk.entries place.segments .directory }

/-- Creates a directory, of which the parts in front may be missing too; `fuel` bounds
the number of parts. -/
def makePathFrom : Nat → Disk → Text → Except DiskFault Disk
  | 0, _, _ => .error .notFound
  | fuel + 1, disk, path =>
    if path.isEmpty then .ok disk
    else match makeDirectory disk path with
      | .ok disk => .ok disk
      | .error .notFound =>
        match Path.parent? path with
        | none => .error .notFound
        | some parent =>
          match makePathFrom fuel disk parent with
          | .error fault => .error fault
          | .ok disk =>
            match makeDirectory disk path with
            | .ok disk => .ok disk
            | .error fault => if isDirectory disk path then .ok disk else .error fault
      | .error fault => if isDirectory disk path then .ok disk else .error fault

/-- Creates a directory and the missing ones above it. -/
def makePath (disk : Disk) (path : Text) : Except DiskFault Disk :=
  makePathFrom (path.length + 1) disk path

/-- Creates the directory that a file goes to, if its path names one. -/
def makeParent (disk : Disk) (path : Text) : Except DiskFault Disk :=
  match Path.parent? path with
  | some (c :: directory) => makePath disk (c :: directory)
  | _ => .ok disk

/-- The names in a directory. -/
def names (disk : Disk) (directory : List Text) : List Text :=
  (Table.keys disk.entries).filterMap fun segments =>
    if segments.dropLast = directory then segments.getLast? else none

/-- Puts an entry at its place together with the directories above it. -/
def put (disk : Disk) (segments : List Text) (entry : Entry) : Disk :=
  let above := (List.range segments.length).filterMap fun n =>
    if n = 0 ∨ (find? disk (segments.take n)).isSome then none else some (segments.take n)
  let entries := above.foldl (fun table s => Table.set table s .directory) disk.entries
  { disk with entries := Table.set entries segments entry }

/-- The files that are new in `after` or have other bytes there. -/
def changedFiles (before after : Disk) : List (List Text × Bytes) :=
  after.entries.filterMap fun (segments, entry) =>
    match entry with
    | .file bytes =>
      if Table.get? before.entries segments = some (.file bytes) then none
      else some (segments, bytes)
    | .directory => none

end Disk

end StyleBatch
