import StyleBatch.Json.Record
import StyleBatch.Path

/-!
# Configuration

The settings of a pipeline, each with a default, and the record they are written as.
-/

namespace StyleBatch

/-- What the surrounding process is there for. -/
structure Environment where
  /-- This process makes the artifact that others reuse. -/
  authoritative : Bool := false
  /-- This process runs as a step of packaging. -/
  packaging : Bool := false
deriving DecidableEq, Repr

/-- Whether compiled text is written to the artifact. -/
def Environment.persists (e : Environment) : Bool :=
  e.authoritative && !e.packaging

structure ImportSettings where
  extension : Text := "scss"
deriving DecidableEq, Repr

structure BatchSettings where
  /-- Pauses between the end of a load's resolution and its leaving the batch. -/
  settleTicks : Nat := 1
  /-- Whether the very first load is answered empty. -/
  deferFirstLoad : Bool := true
deriving DecidableEq, Repr

structure ArtifactSettings where
  directory : Text := "src/css/dev"
  file : Text := "dev-css.css"
deriving DecidableEq, Repr

/-- Where the artifact is written. -/
def ArtifactSettings.path (a : ArtifactSettings) : Text :=
  Path.join a.directory a.file

structure CompilerSettings where
  command : Text := "sass"
  arguments : List Text := ["--stdin"]
deriving DecidableEq, Repr

structure Config where
  environment : Environment := {}
  imports : ImportSettings := {}
  batch : BatchSettings := {}
  artifact : ArtifactSettings := {}
  compiler : CompilerSettings := {}
deriving DecidableEq, Repr

namespace Environment

def authoritativeProcess : Environment :=
  ⟨true, false⟩

/-- Reuses an artifact that another process makes. -/
def follower : Environment :=
  ⟨false, false⟩

def packagingStep : Environment :=
  ⟨true, true⟩

def ofJson? (v : Json) : Option Environment := do
  let [authoritative, packaging] ← v.fields? ["authoritative", "packaging"] | none
  return ⟨← Json.orDefault false Json.asBool? authoritative,
    ← Json.orDefault false Json.asBool? packaging⟩

def toJson (e : Environment) : Json :=
  .object [("authoritative", .bool e.authoritative), ("packaging", .bool e.packaging)]

end Environment

namespace Config

def importsOfJson? (v : Json) : Option ImportSettings := do
  let [extension] ← v.fields? ["extension"] | none
  let default : ImportSettings := {}
  return ⟨← Json.orDefault default.extension Json.asText? extension⟩

def batchOfJson? (v : Json) : Option BatchSettings := do
  let [settleTicks, deferFirstLoad] ← v.fields? ["settle_ticks", "defer_first_load"] | none
  let default : BatchSettings := {}
  return ⟨← Json.orDefault default.settleTicks (Json.asNat? 32) settleTicks,
    ← Json.orDefault default.deferFirstLoad Json.asBool? deferFirstLoad⟩

def artifactOfJson? (v : Json) : Option ArtifactSettings := do
  let [directory, file] ← v.fields? ["dir", "file"] | none
  let default : ArtifactSettings := {}
  return ⟨← Json.orDefault default.directory Json.asText? directory,
    ← Json.orDefault default.file Json.asText? file⟩

def compilerOfJson? (v : Json) : Option CompilerSettings := do
  let [command, arguments] ← v.fields? ["command", "args"] | none
  let default : CompilerSettings := {}
  return ⟨← Json.orDefault default.command Json.asText? command,
    ← Json.orDefault default.arguments Json.asTexts? arguments⟩

/-- Reads a configuration; fields that are missing take their defaults. -/
def ofJson? (v : Json) : Option Config := do
  let [environment, imports, batch, artifact, compiler] ←
    v.fields? ["environment", "imports", "batch", "artifact", "compiler"] | none
  return ⟨← Json.orDefault {} Environment.ofJson? environment,
    ← Json.orDefault {} importsOfJson? imports, ← Json.orDefault {} batchOfJson? batch,
    ← Json.orDefault {} artifactOfJson? artifact, ← Json.orDefault {} compilerOfJson? compiler⟩

def toJson (c : Config) : Json :=
  .object [("environment", c.environment.toJson),
    ("imports", .object [("extension", .string c.imports.extension)]),
    ("batch", .object [("settle_ticks", .int c.batch.settleTicks),
      ("defer_first_load", .bool c.batch.deferFirstLoad)]),
    ("artifact", .object [("dir", .string c.artifact.directory),
      ("file", .string c.artifact.file)]),
    ("compiler", .object [("command", .string c.compiler.command),
      ("args", .array (c.compiler.arguments.map Json.string))])]

end Config

end StyleBatch
