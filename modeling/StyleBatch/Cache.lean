import StyleBatch.Fault
import StyleBatch.Key
import StyleBatch.Table

/-!
# The resolution cache

Two tables of resolutions, by key and by location. Whoever reserves an entry first starts
its resolution, everyone after that shares it. No entry is ever removed or replaced.
-/

namespace StyleBatch

/-- Reserves an entry: with `true` if it was free and now holds `start`. -/
def Table.reserve {κ ν : Type} [DecidableEq κ] (table : Table κ ν) (key : κ) (start : ν) :
    Bool × Table κ ν :=
  if Table.has table key then (false, table) else (true, Table.set table key start)

/-- Resolutions in `ψ` by key and in `φ` by location. -/
structure Cache (ψ φ : Type) where
  keys : Table Key ψ
  locations : Table Location φ
deriving DecidableEq, Repr

namespace Cache

variable {ψ φ : Type}

def empty : Cache ψ φ :=
  ⟨[], []⟩

def reserveKey (cache : Cache ψ φ) (key : Key) (start : ψ) : Bool × Cache ψ φ :=
  let (started, keys) := Table.reserve cache.keys key start
  (started, { cache with keys })

def reserveLocation (cache : Cache ψ φ) (location : Location) (start : φ) : Bool × Cache ψ φ :=
  let (started, locations) := Table.reserve cache.locations location start
  (started, { cache with locations })

def setKey (cache : Cache ψ φ) (key : Key) (value : ψ) : Cache ψ φ :=
  { cache with keys := Table.set cache.keys key value }

def setLocation (cache : Cache ψ φ) (location : Location) (value : φ) : Cache ψ φ :=
  { cache with locations := Table.set cache.locations location value }

end Cache

/-- A resolution that pauses `left` more times and then has its outcome. -/
structure Countdown where
  left : Nat
  outcome : Outcome
  settled : Bool := false
deriving DecidableEq, Repr

namespace Countdown

/-- The resolution after one poll. -/
def poll (c : Countdown) : Countdown :=
  if c.settled then c
  else match c.left with
    | 0 => { c with settled := true }
    | left + 1 => { c with left }

/-- The outcome once it is there. -/
def peek? (c : Countdown) : Option Outcome :=
  if c.settled then some c.outcome else none

/-- The resolution polled to its end. -/
def finish (c : Countdown) : Countdown :=
  { c with left := 0, settled := true }

end Countdown

end StyleBatch
