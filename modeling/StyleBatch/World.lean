import StyleBatch.Disk
import StyleBatch.Event.Log

/-!
# The world of a run

What all parts of a run share: the disk they read and write, and the event log.
-/

namespace StyleBatch

structure World where
  disk : Disk
  log : Log
deriving DecidableEq, Repr

namespace World

def emit (world : World) (kind : EventKind) : World :=
  { world with log := world.log.emit kind }

end World

end StyleBatch
