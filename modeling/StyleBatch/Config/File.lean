import StyleBatch.Config
import StyleBatch.Disk
import StyleBatch.Fault
import StyleBatch.Toml.Reader
import StyleBatch.Toml.Writer

/-!
# Configuration files

A configuration is kept as a TOML document with a section for each group of settings.
-/

namespace StyleBatch.Config

/-- The sections of a configuration file. -/
def sections (c : Config) : List Toml.Section :=
  [⟨"environment", [("authoritative", .flag c.environment.authoritative),
      ("packaging", .flag c.environment.packaging)]⟩,
    ⟨"imports", [("extension", .text c.imports.extension)]⟩,
    ⟨"batch", [("settle_ticks", .number c.batch.settleTicks),
      ("defer_first_load", .flag c.batch.deferFirstLoad)]⟩,
    ⟨"artifact", [("dir", .text c.artifact.directory), ("file", .text c.artifact.file)]⟩,
    ⟨"compiler", [("command", .text c.compiler.command), ("args", .texts c.compiler.arguments)]⟩]

def write (c : Config) : Text :=
  Toml.write c.sections

/-- How many settings a section has. -/
def sectionSize (name : Text) : Nat :=
  match (sections {}).find? fun s => s.name = name with
  | some s => s.entries.length
  | none => 0

/-- A document without the items that a section in its array form has too many. -/
def withoutSurplus : Json → Json
  | .object members => .object (members.map fun (name, v) =>
      match v with
      | .array items => (name, .array (items.take (sectionSize name)))
      | v => (name, v))
  | v => v

/-- The configuration that a document gives. A section may be an array of its settings; a
document may have more of them than there are settings. -/
def read? (t : Text) : Option Config :=
  (Toml.read? t).bind fun document => ofJson? (withoutSurplus document)

/-- Loads a configuration from a file. -/
def loadFrom (disk : Disk) (path : Text) : Except Fault Config :=
  match disk.readText path with
  | .error fault => .error (.badConfig ("Failed to read " ++ path ++ ": " ++ fault.message))
  | .ok t =>
    match read? t with
    | some config => .ok config
    | none => .error (.badConfig ("Failed to parse " ++ path))

/-- Saves a configuration to a file. -/
def save (path : Text) (c : Config) (disk : Disk) : Except Fault Disk :=
  match disk.makeParent path with
  | .error fault =>
    .error (.badConfig ("Failed to create config directory: " ++ fault.message))
  | .ok disk =>
    match disk.write path (Utf8.encode c.write) with
    | .error fault => .error (.badConfig ("Failed to write config file: " ++ fault.message))
    | .ok disk => .ok disk

end StyleBatch.Config
