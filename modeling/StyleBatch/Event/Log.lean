import StyleBatch.Event
import StyleBatch.Json.Reader

/-!
# The event log

Events are only ever appended; an event's number is its place in the log. The trace is
the log as text, one compact JSON record to a line.
-/

namespace StyleBatch

abbrev Log := List Event

namespace Log

/-- The log with one more event. -/
def emit (log : Log) (kind : EventKind) : Log :=
  log ++ [⟨log.length, 0, kind⟩]

/-- Several events, one after the other. -/
def emitAll (log : Log) (kinds : List EventKind) : Log :=
  kinds.foldl emit log

/-- The events about the load with the given address. -/
def about (log : Log) (address : Text) : Log :=
  log.filter fun e => e.kind.address? == some address

def batchEvents (log : Log) : Log :=
  log.filter fun e => e.kind.isBatchEvent

def count (log : Log) (p : EventKind → Bool) : Nat :=
  (log.filter fun e => p e.kind).length

/-- The log as one JSON array. -/
def toJson (log : Log) : Json :=
  .array (log.map Event.toJson)

/-- The line of an event in a trace, with its line feed. -/
def traceLine (event : Event) : Text :=
  event.toJson.write ++ ['\n']

/-- The log as a trace. -/
def trace (log : Log) : Text :=
  log.flatMap traceLine

/-- The event that a line of a trace records. -/
def readLine? (line : Text) : Option Event := do
  Event.ofJson? (← Json.read? line)

end Log

end StyleBatch
