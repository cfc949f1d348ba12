import StyleBatch.Json.Record

/-!
# Events

What happens to loads, imports, batches and compiles, one kind of event for each, and
the JSON record of an event: the kind's name first, then its fields.
-/

namespace StyleBatch

inductive EventKind where
  /-- A load joined a batch; `outstanding` counts it. -/
  | loadSubmitted (address : Text) (epoch outstanding : Nat)
  /-- The first load was answered empty and not resolved. -/
  | bootstrapDeferred (address : Text)
  /-- A load's resolution failed and the load left its batch. -/
  | loadFailed (address error : Text)
  /-- A location was fetched. -/
  | importFetched (key location : Text) (bytes : Nat)
  /-- An import was answered by an earlier resolution, found by key or by location. -/
  | importShared (key : Text) (location : Option Text)
  /-- The last member left a batch. -/
  | batchClosed (epoch members : Nat) (closer : Text) (sourceLength : Nat) (sourceHash : Text)
  /-- The first batch was not compiled. -/
  | firstCompileSkipped (epoch : Nat)
  | compileSucceeded (address : Text) (outputLength duration : Nat)
  | compileFailed (address : Text) (status : Int) (message source : Text)
  | artifactWritten (path : Text) (bytes : Nat)
  | artifactNotWritten (path error : Text)
deriving DecidableEq, Repr

/-- An event with its number in the log and its time. -/
structure Event where
  id : Nat
  time : Nat
  kind : EventKind
deriving DecidableEq, Repr

namespace EventKind

/-- The address of the load that the event is about. -/
def address? : EventKind → Option Text
  | loadSubmitted address .. => some address
  | bootstrapDeferred address => some address
  | loadFailed address _ => some address
  | compileSucceeded address .. => some address
  | compileFailed address .. => some address
  | batchClosed _ _ closer .. => some closer
  | _ => none

def isBatchEvent : EventKind → Bool
  | batchClosed .. | firstCompileSkipped _ => true
  | _ => false

/-- The name of the kind in records. -/
def name : EventKind → Text
  | loadSubmitted .. => "load_submitted"
  | bootstrapDeferred _ => "bootstrap_deferred"
  | loadFailed .. => "load_failed"
  | importFetched .. => "import_fetched"
  | importShared .. => "import_shared"
  | batchClosed .. => "batch_closed"
  | firstCompileSkipped _ => "first_compile_skipped"
  | compileSucceeded .. => "compile_succeeded"
  | compileFailed .. => "compile_failed"
  | artifactWritten .. => "artifact_written"
  | artifactNotWritten .. => "artifact_write_failed"

def ofNat (n : Nat) : Json :=
  .int n

def ofOption : Option Text → Json
  | none => .null
  | some t => .string t

/-- The fields of the record after the kind's name. -/
def members : EventKind → List (Text × Json)
  | loadSubmitted address epoch outstanding =>
    [("address", .string address), ("epoch", ofNat epoch), ("outstanding", ofNat outstanding)]
  | bootstrapDeferred address => [("address", .string address)]
  | loadFailed address error => [("address", .string address), ("error", .string error)]
  | importFetched key location bytes =>
    [("key", .string key), ("location", .string location), ("bytes", ofNat bytes)]
  | importShared key location => [("key", .string key), ("location", ofOption location)]
  | batchClosed epoch members closer sourceLength sourceHash =>
    [("epoch", ofNat epoch), ("members", ofNat members), ("closer", .string closer),
      ("source_len", ofNat sourceLength), ("source_hash", .string sourceHash)]
  | firstCompileSkipped epoch => [("epoch", ofNat epoch)]
  | compileSucceeded address outputLength duration =>
    [("address", .string address), ("output_len", ofNat outputLength),
      ("duration_ms", ofNat duration)]
  | compileFailed address status message source =>
    [("address", .string address), ("status", .int status), ("message", .string message),
      ("source", .string source)]
  | artifactWritten path bytes => [("path", .string path), ("bytes", ofNat bytes)]
  | artifactNotWritten path error => [("path", .string path), ("error", .string error)]

/-- The record of an event's kind. -/
def toJson (kind : EventKind) : Json :=
  .object (("type", .string kind.name) :: kind.members)

def asCount? (v : Json) : Option Nat :=
  v.asNat? 64

/-- The kind with the given name, read from its fields. -/
def ofFields? (name : Text) (body : Json) : Option EventKind :=
  let read (names : List Text) : Option (List Json) := do (← body.fields? names).mapM id
  if name = "load_submitted" then do
    let [address, epoch, outstanding] ← read ["address", "epoch", "outstanding"] | none
    return loadSubmitted (← address.asText?) (← asCount? epoch) (← asCount? outstanding)
  else if name = "bootstrap_deferred" then do
    let [address] ← read ["address"] | none
    return bootstrapDeferred (← address.asText?)
  else if name = "load_failed" then do
    let [address, error] ← read ["address", "error"] | none
    return loadFailed (← address.asText?) (← error.asText?)
  else if name = "import_fetched" then do
    let [key, location, bytes] ← read ["key", "location", "bytes"] | none
    return importFetched (← key.asText?) (← location.asText?) (← asCount? bytes)
  else if name = "import_shared" then do
    let names : List Text := ["key", "location"]
    let [some key, location] ← body.fields? names | none
    if body.isShort names then none
    return importShared (← key.asText?) (← Json.asOptionalText? location)
  else if name = "batch_closed" then do
    let [epoch, members, closer, sourceLength, sourceHash] ←
      read ["epoch", "members", "closer", "source_len", "source_hash"] | none
    return batchClosed (← asCount? epoch) (← asCount? members) (← closer.asText?)
      (← asCount? sourceLength) (← sourceHash.asText?)
  else if name = "first_compile_skipped" then do
    let [epoch] ← read ["epoch"] | none
    return firstCompileSkipped (← asCount? epoch)
  else if name = "compile_succeeded" then do
    let [address, outputLength, duration] ← read ["address", "output_len", "duration_ms"] | none
    return compileSucceeded (← address.asText?) (← asCount? outputLength) (← asCount? duration)
  else if name = "compile_failed" then do
    let [address, status, message, source] ← read ["address", "status", "message", "source"]
      | none
    return compileFailed (← address.asText?) (← status.asStatus?) (← message.asText?)
      (← source.asText?)
  else if name = "artifact_written" then do
    let [path, bytes] ← read ["path", "bytes"] | none
    return artifactWritten (← path.asText?) (← asCount? bytes)
  else if name = "artifact_write_failed" then do
    let [path, error] ← read ["path", "error"] | none
    return artifactNotWritten (← path.asText?) (← error.asText?)
  else none

/-- Reads the record of an event's kind; in the array form the kind's name comes first. -/
def ofJson? : Json → Option EventKind
  | .object members => do
    let name ← Json.asText? (← Json.member? "type" (.object members))
    ofFields? name (.object (members.filter fun m => m.1 != "type"))
  | .array (.string name :: items) => ofFields? name (.array items)
  | _ => none

end EventKind

namespace Event

def toJson (event : Event) : Json :=
  .object [("id", .int event.id), ("timestamp_ms", .int event.time), ("kind", event.kind.toJson)]

def ofJson? (v : Json) : Option Event := do
  let [some id, some time, some kind] ← v.fields? ["id", "timestamp_ms", "kind"] | none
  return ⟨← id.asNat? 64, ← time.asNat? 64, ← EventKind.ofJson? kind⟩

end Event

end StyleBatch
