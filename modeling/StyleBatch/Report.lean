import StyleBatch.Json.Record

/-!
# Compiler reports

What a compiler says about one source: a status, a message and the compiled text.
-/

namespace StyleBatch

structure Report where
  status : Int := 0
  message : Text := []
  text : Text := []
deriving DecidableEq, Repr

namespace Report

def success (text : Text) : Report :=
  { text }

def failure (status : Int) (message : Text) : Report :=
  { status, message }

/-- Only a status above zero is a failure. -/
def isFailure (r : Report) : Bool :=
  decide (r.status > 0)

def toJson (r : Report) : Json :=
  .object [("status", .int r.status), ("message", .string r.message), ("text", .string r.text)]

/-- Reads a report; all three fields have to be there. -/
def ofJson? (v : Json) : Option Report := do
  let [some status, some message, some text] ← v.fields? ["status", "message", "text"] | none
  return ⟨← status.asStatus?, ← message.asText?, ← text.asText?⟩

end Report

end StyleBatch
