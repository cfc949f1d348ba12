import StyleBatch.Disk
import StyleBatch.Event.Log
import StyleBatch.Fault

/-!
# Trace files

A trace file holds the trace of a log, a line for each event.
-/

namespace StyleBatch.Log

/-- Writes a trace file; the directories above it are created. -/
def save (path : Text) (log : Log) (disk : Disk) : Except Fault Disk :=
  match disk.makeParent path with
  | .error fault => .error (.io path fault.message)
  | .ok disk =>
    match disk.write path (Utf8.encode log.trace) with
    | .error fault => .error (.io path fault.message)
    | .ok disk => .ok disk

end StyleBatch.Log
