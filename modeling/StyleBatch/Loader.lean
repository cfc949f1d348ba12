import StyleBatch.Disk
import StyleBatch.Fault
import StyleBatch.Path.Collapse

/-!
# Loaders

A loader turns a file as an import names it into a module name, finds the address of a
name and fetches the text at an address. The memory loader has its files in a table,
the disk loader reads them below a root directory.
-/

namespace StyleBatch

inductive Loader where
  /-- `aliases` are further names for files, `suffix` is put behind every address found,
  `delay` lengthens every fetch. -/
  | memory (files aliases : Table Text Text) (suffix : Option Text) (delay : Nat)
  | disk (root : Text)
deriving DecidableEq, Repr

namespace Loader

def name : Loader → Text
  | memory .. => "memory"
  | disk _ => "fs"

/-- The directory that is cut off `file:` addresses for base paths. -/
def workingDirectory? : Loader → Option Text
  | memory .. => none
  | disk root => some (Text.dropEnd (· == '/') root)

/-- Adds or replaces a file of a memory loader. -/
def insert (file text : Text) : Loader → Loader
  | memory files aliases suffix delay => memory (Table.set files file text) aliases suffix delay
  | disk root => disk root

/-- Ticks before a file is turned into a module name. -/
def normalizingTicks : Loader → Nat
  | memory .. => 1
  | disk _ => 0

/-- The module name of a file imported where the base path is `base`. -/
def normalize (file base : Text) : Loader → Outcome
  | memory .. => .ok (Path.resolve base file)
  | disk _ =>
    if file.isEmpty then .error (.notNormalized file base "empty specifier")
    else .ok ((Path.resolve base file).dropWhile (· == '/'))

/-- The address of a path on disk. -/
def addressOf (root path : Text) : Text :=
  "file:" ++ (if Path.isAbsolute path then path else Path.join root path)

/-- Where the disk loader looks for a name. -/
def pathOf (root name : Text) : Text :=
  Path.join root (name.dropWhile (· == '/'))

/-- What is looked up for a name, in this order and with a pause before each: on disk a
partial `_name` that is missing may be a file `name`. -/
def candidates (name : Text) : Loader → List Text
  | memory _ aliases _ _ => [(Table.get? aliases name).getD name]
  | disk root =>
    let path := pathOf root name
    match Path.fileName? path with
    | some ('_' :: plain) => [path, Path.withFileName plain path]
    | _ => [path]

/-- The address of a candidate that exists. -/
def probe? (d : Disk) (candidate : Text) : Loader → Option Text
  | memory files _ suffix _ =>
    if Table.has files candidate then some (candidate ++ suffix.getD []) else none
  | disk root => if d.has candidate then some (addressOf root candidate) else none

/-- The fault when no candidate exists. -/
def notLocated (name : Text) : Loader → Fault
  | memory .. => .notLocated name "no such file in memory loader"
  | disk root => .notLocated name (pathOf root name ++ " does not exist")

/-- Ticks before the text of an address in memory is there; the disk takes its own time. -/
def fetchingTicks : Loader → Nat
  | memory _ _ _ delay => delay + 1
  | disk _ => 0

/-- The text at an address. -/
def fetch (d : Disk) (address : Text) : Loader → Outcome
  | memory files _ _ _ =>
    match Table.get? files address with
    | some t => .ok t
    | none => .error (.notFetched address "no such file in memory loader")
  | disk _ =>
    match d.readText ((Text.after? "file:" address).getD address) with
    | .ok t => .ok t
    | .error fault => .error (.notFetched address fault.message)

/-- Looks up all candidates at once. -/
def locate (d : Disk) (name : Text) (loader : Loader) : Outcome :=
  match (loader.candidates name).findSome? fun c => loader.probe? d c with
  | some address => .ok address
  | none => .error (loader.notLocated name)

end Loader

end StyleBatch
