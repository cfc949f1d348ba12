import StyleBatch.Address
import StyleBatch.Cache
import StyleBatch.Directive.Splice
import StyleBatch.Load
import StyleBatch.Loader
import StyleBatch.Schedule
import StyleBatch.Text.Blank
import StyleBatch.World

/-!
# Resolution

Inlining the imports of loads that share one cache, as tasks that move by steps. An
inlining works on a load; a branch is one import of a source; a key task finds the
location of a key; a location task fetches a location and inlines its own imports.
Branches that meet a reserved key, and key tasks that meet a reserved location, wait for the
task that is there and then clear their placeholder.
-/

namespace StyleBatch

/-- Addresses, keys and locations from a load down to an import, the latest first. -/
abbrev Ancestry := List Text

namespace Ancestry

/-- Whether an address, key or location is among the ancestors. -/
def holds (ancestry : Ancestry) (entry : Text) : Bool :=
  ancestry.any fun ancestor => decide (ancestor = entry)

/-- The fault of an import that leads back to one of its ancestors. -/
def circular (ancestry : Ancestry) (closing : Text) : Fault :=
  .circularImport (ancestry.reverse ++ [closing])

end Ancestry

namespace Resolution

/-- What a task waits for before it moves on with an answer in `α`. -/
inductive Pause (α : Type) where
  | ticks (left : Nat)
  /-- The end of the disk call with this number. It answers by the disk as it was when the
  call began. -/
  | call (number : Nat) (answer : α)
deriving DecidableEq, Repr

/-- Disk calls, numbered in the order in which they begin. They end on their own, between
two rounds of polls, so that polling a task twice in one round does not hurry its call. -/
structure DiskCalls where
  begun : Nat := 0
  ended : Nat := 0
deriving DecidableEq, Repr

inductive BranchPhase where
  | fresh
  /-- Waits for its key; `own` if it started the key's task. -/
  | reserved (own : Bool)
  | settled (outcome : Outcome)
deriving DecidableEq, Repr

/-- One import of a source that is being inlined into the load numbered `load`. -/
structure Branch where
  target : Import
  load : Nat
  ancestry : Ancestry
  phase : BranchPhase
deriving DecidableEq, Repr

inductive KeyPhase where
  | normalizing (pauses : Nat)
  /-- Looks up the first candidate after the pause. -/
  | locating (name : Text) (pause : Pause (Option Text)) (candidates : List Text)
  /-- Waits for its location; `own` if it started the location's task. -/
  | reserved (location : Location) (own : Bool)
  | settled (outcome : Outcome)
deriving DecidableEq, Repr

/-- Finds the location of a key on behalf of a load. -/
structure KeyTask where
  file : Text
  load : Nat
  ancestry : Ancestry
  phase : KeyPhase
deriving DecidableEq, Repr

inductive LocationPhase where
  | queued
  | fetching (pause : Pause Outcome)
  | expanding (raw : Text) (branches : List Branch)
  | settled (outcome : Outcome)
deriving DecidableEq, Repr

/-- Fetches a location and inlines it in the place of `key`'s placeholder. -/
structure LocationTask where
  key : Key
  load : Nat
  ancestry : Ancestry
  phase : LocationPhase
deriving DecidableEq, Repr

inductive InliningPhase where
  | queued
  | expanding (branches : List Branch)
  | settled (outcome : Outcome)
deriving DecidableEq, Repr

/-- Inlines the imports of a load. -/
structure Inlining where
  load : Nat
  phase : InliningPhase
deriving DecidableEq, Repr

/-- What has a source whose imports are branches. -/
inductive Owner where
  | inlining (i : Nat)
  | location (l : Location)
deriving DecidableEq, Repr

inductive Task where
  | source (owner : Owner)
  | branch (owner : Owner) (j : Nat)
  | key (k : Key)
  /-- The disk, which ends the calls that have begun. -/
  | disk
deriving DecidableEq, Repr

end Resolution

/-- Loads, their inlinings and the cache, over a loader. `fetched` lists the address of
every fetch. -/
structure Resolution where
  loader : Loader
  extension : Text
  cache : Cache Resolution.KeyTask Resolution.LocationTask := Cache.empty
  loads : List Load := []
  inlinings : List Resolution.Inlining := []
  fetched : List Text := []
  calls : Resolution.DiskCalls := {}
  world : World

namespace Resolution

/-! ## Reading a state -/

def BranchPhase.outcome? : BranchPhase → Option Outcome
  | .settled outcome => some outcome
  | _ => none

def KeyPhase.outcome? : KeyPhase → Option Outcome
  | .settled outcome => some outcome
  | _ => none

def LocationPhase.outcome? : LocationPhase → Option Outcome
  | .settled outcome => some outcome
  | _ => none

def InliningPhase.outcome? : InliningPhase → Option Outcome
  | .settled outcome => some outcome
  | _ => none

/-- The outcome of a key's resolution, once it is there. -/
def keyOutcome? (r : Resolution) (k : Key) : Option Outcome :=
  (Table.get? r.cache.keys k).bind fun t => t.phase.outcome?

/-- The outcome of a location's resolution, once it is there. -/
def locationOutcome? (r : Resolution) (l : Location) : Option Outcome :=
  (Table.get? r.cache.locations l).bind fun t => t.phase.outcome?

/-- The outcome of an inlining, once it is there. -/
def inliningOutcome? (r : Resolution) (i : Nat) : Option Outcome :=
  r.inlinings[i]?.bind fun x => x.phase.outcome?

/-- The branches of an owner. -/
def branches (r : Resolution) : Owner → List Branch
  | .inlining i =>
    match r.inlinings[i]? with
    | some ⟨_, .expanding branches⟩ => branches
    | _ => []
  | .location l =>
    match Table.get? r.cache.locations l with
    | some ⟨_, _, _, .expanding _ branches⟩ => branches
    | _ => []

/-- The text of a load. -/
def loadText (r : Resolution) (load : Nat) : Text :=
  match r.loads[load]? with
  | some load => load.text
  | none => []

/-- The branches of an owner that are not settled yet. -/
def openBranches (owner : Owner) (branches : List Branch) : List Task :=
  (branches.zipIdx.filter fun (b, _) => b.phase.outcome?.isNone).map fun (_, j) => .branch owner j

/-- Where the owner of some branches stands. -/
def standingOfSource (owner : Owner) (branches : List Branch) : Standing Task :=
  match openBranches owner branches with
  | [] => .ready
  | on => .waiting on

/-- Asleep while there are pauses left. -/
def standingOfPauses : Nat → Standing Task
  | 0 => .ready
  | _ + 1 => .asleep

/-- Asleep while there are ticks left or the call has not ended. -/
def standingOfPause {α : Type} (r : Resolution) : Pause α → Standing Task
  | .ticks left => standingOfPauses left
  | .call number _ => if number < r.calls.ended then .ready else .asleep

/-- Where a task stands that waits for another one's outcome. -/
def standingOfWait (on : Task) : Option Outcome → Standing Task
  | some _ => .ready
  | none => .waiting [on]

/-- Where a task stands; one that does not exist counts as settled. -/
def standing (r : Resolution) : Task → Standing Task
  | .source (.inlining i) =>
    match r.inlinings[i]? with
    | none => .settled
    | some x =>
      match x.phase with
      | .queued => .ready
      | .expanding branches => standingOfSource (.inlining i) branches
      | .settled _ => .settled
  | .source (.location l) =>
    match Table.get? r.cache.locations l with
    | none => .settled
    | some t =>
      match t.phase with
      | .queued => .ready
      | .fetching pause => standingOfPause r pause
      | .expanding _ branches => standingOfSource (.location l) branches
      | .settled _ => .settled
  | .branch owner j =>
    match (branches r owner)[j]? with
    | none => .settled
    | some b =>
      match b.phase with
      | .fresh => .ready
      | .reserved _ => standingOfWait (.key b.target.key) (keyOutcome? r b.target.key)
      | .settled _ => .settled
  | .key k =>
    match Table.get? r.cache.keys k with
    | none => .settled
    | some t =>
      match t.phase with
      | .normalizing pauses => standingOfPauses pauses
      | .locating _ pause _ => standingOfPause r pause
      | .reserved l _ => standingOfWait (.source (.location l)) (locationOutcome? r l)
      | .settled _ => .settled
  | .disk => if r.calls.ended < r.calls.begun then .asleep else .settled

/-! ## Writing a state -/

def setLoadText (r : Resolution) (load : Nat) (text : Text) : Resolution :=
  { r with loads := r.loads.modify load fun l => { l with text } }

def setInlining (r : Resolution) (i : Nat) (phase : InliningPhase) : Resolution :=
  { r with inlinings := r.inlinings.modify i fun x => { x with phase } }

def setKey (r : Resolution) (k : Key) (t : KeyTask) (phase : KeyPhase) : Resolution :=
  { r with cache := r.cache.setKey k { t with phase } }

def setLocation (r : Resolution) (l : Location) (t : LocationTask) (phase : LocationPhase) :
    Resolution :=
  { r with cache := r.cache.setLocation l { t with phase } }

/-- The branches with the phase of the branch numbered `j` changed. -/
def withPhase (branches : List Branch) (j : Nat) (phase : BranchPhase) : List Branch :=
  branches.modify j fun b => { b with phase }

def setBranch (r : Resolution) (owner : Owner) (j : Nat) (phase : BranchPhase) : Resolution :=
  match owner with
  | .inlining i =>
    match r.inlinings[i]? with
    | some ⟨_, .expanding branches⟩ => setInlining r i (.expanding (withPhase branches j phase))
    | _ => r
  | .location l =>
    match Table.get? r.cache.locations l with
    | some t =>
      match t.phase with
      | .expanding raw branches => setLocation r l t (.expanding raw (withPhase branches j phase))
      | _ => r
    | none => r

def emit (r : Resolution) (kind : EventKind) : Resolution :=
  { r with world := r.world.emit kind }

/-- The first placeholder of a key in a load replaced. -/
def substitute (r : Resolution) (load : Nat) (key : Key) (replacement : Text) : Resolution :=
  setLoadText r load (key.substitute replacement (loadText r load))

/-- Clears a placeholder whose content another requester already has. -/
def clearPlaceholder (r : Resolution) (load : Nat) (key : Key) (location : Option Location) :
    Resolution :=
  emit (substitute r load key []) (.importShared key.text (location.map Location.text))

/-! ## Pauses -/

/-- Begins a pause before the answer that a loader gives: `ticks` ticks in memory, one disk
call on disk. -/
def beginPause {α : Type} (r : Resolution) (ticks : Nat) (answer : Disk → α) :
    Pause α × Resolution :=
  match r.loader with
  | .memory .. => (.ticks ticks, r)
  | .disk _ => (.call r.calls.begun (answer r.world.disk),
      { r with calls := { r.calls with begun := r.calls.begun + 1 } })

/-- What is left of a pause after one more poll, or the answer when it is over. -/
def Pause.proceed {α : Type} (r : Resolution) (answer : Disk → α) : Pause α → Pause α ⊕ α
  | .ticks 0 => .inr (answer r.world.disk)
  | .ticks (left + 1) => .inl (.ticks left)
  | .call number given => if number < r.calls.ended then .inr given else .inl (.call number given)

/-- All calls that have begun end. -/
def endCalls (r : Resolution) : Resolution :=
  { r with calls := { r.calls with ended := r.calls.begun } }

/-! ## Staging a source -/

/-- The imports of a source in the order of its directives; a blank specifier is a fault. -/
def imports (extension base address : Text) (directives : List Directive) :
    Except Fault (List Import) :=
  directives.mapM fun d =>
    let specifier := Text.trim d.specifier
    if specifier.isEmpty then .error (.emptySpecifier address)
    else .ok (Specifier.toImport extension base specifier)

/-- The source with the directives replaced by the texts in their order. -/
def fill (raw : Text) (directives : List Directive) (texts : List Text) : Text :=
  (Directive.splice raw (directives.zip texts)).getD raw

/-- The source with a placeholder for every import, and its branches. -/
def stage (r : Resolution) (address raw : Text) (load : Nat) (ancestry : Ancestry) :
    Except Fault (Text × List Branch) := do
  let directives := Directive.scan raw
  let base := Address.base r.loader.workingDirectory? address
  let imports ← imports r.extension base address directives
  return (fill raw directives (imports.map fun i => i.key.placeholder),
    imports.map fun i => ⟨i, load, ancestry, .fresh⟩)

/-- The texts of settled branches; the first fault among them, if there is one. -/
def texts (branches : List Branch) : Except Fault (List Text) :=
  branches.mapM fun b => b.phase.outcome?.getD (.ok [])

/-! ## Steps -/

/-- An inlining stages its load, waits for the branches and ends with the load's text. -/
def stepInlining (r : Resolution) (i : Nat) : Resolution :=
  match r.inlinings[i]? with
  | none => r
  | some x =>
    match x.phase with
    | .queued =>
      let raw := loadText r x.load
      if (Directive.scan raw).isEmpty then setInlining r i (.settled (.ok raw))
      else
        let address := match r.loads[x.load]? with
          | some load => load.address
          | none => []
        match stage r address raw x.load [address] with
        | .error fault => setInlining r i (.settled (.error fault))
        | .ok (staged, branches) =>
          setInlining (setLoadText r x.load staged) i (.expanding branches)
    | .expanding branches =>
      match texts branches with
      | .error fault => setInlining r i (.settled (.error fault))
      | .ok _ => setInlining r i (.settled (.ok (loadText r x.load)))
    | .settled _ => r

/-- A branch reserves its key, waits, and clears its placeholder if it came second. -/
def stepBranch (r : Resolution) (owner : Owner) (j : Nat) : Resolution :=
  match (branches r owner)[j]? with
  | none => r
  | some b =>
    let key := b.target.key
    match b.phase with
    | .fresh =>
      if b.ancestry.holds key.text then
        setBranch r owner j (.settled (.error (b.ancestry.circular key.text)))
      else
        let start : KeyTask :=
          ⟨b.target.file, b.load, b.ancestry, .normalizing r.loader.normalizingTicks⟩
        let (own, cache) := r.cache.reserveKey key start
        setBranch { r with cache } owner j (.reserved own)
    | .reserved own =>
      match keyOutcome? r key with
      | none => r
      | some outcome =>
        let r := match own, outcome with
          | false, .ok _ => clearPlaceholder r b.load key none
          | _, _ => r
        setBranch r owner j (.settled outcome)
    | .settled _ => r

/-- Once the address of a key is known, its location is reserved. -/
def reserveLocation (r : Resolution) (k : Key) (t : KeyTask) (address : Text) : Resolution :=
  let location := Location.ofAddress address
  if t.ancestry.holds location.text then
    setKey r k t (.settled (.error (t.ancestry.circular location.text)))
  else
    let start : LocationTask := ⟨k, t.load, k.text :: t.ancestry, .queued⟩
    let (own, cache) := r.cache.reserveLocation location start
    setKey { r with cache } k t (.reserved location own)

/-- The address of the first candidate, if it exists. -/
def probe? (r : Resolution) (candidates : List Text) (disk : Disk) : Option Text :=
  candidates.head?.bind fun candidate => r.loader.probe? disk candidate

/-- Looks for the candidates of a name. -/
def beginLocating (r : Resolution) (k : Key) (t : KeyTask) (name : Text)
    (candidates : List Text) : Resolution :=
  let (pause, r) := beginPause r 1 (probe? r candidates)
  setKey r k t (.locating name pause candidates)

/-- A key task normalizes and locates its file and shares the location's resolution. -/
def stepKey (r : Resolution) (k : Key) : Resolution :=
  match Table.get? r.cache.keys k with
  | none => r
  | some t =>
    match t.phase with
    | .normalizing (pauses + 1) => setKey r k t (.normalizing pauses)
    | .normalizing 0 =>
      match r.loader.normalize t.file k.base with
      | .error fault => setKey r k t (.settled (.error fault))
      | .ok name => beginLocating r k t name (r.loader.candidates name)
    | .locating name pause candidates =>
      match pause.proceed r (probe? r candidates) with
      | .inl pause => setKey r k t (.locating name pause candidates)
      | .inr (some address) => reserveLocation r k t address
      | .inr none =>
        match candidates.tail with
        | [] => setKey r k t (.settled (.error (r.loader.notLocated name)))
        | more => beginLocating r k t name more
    | .reserved location own =>
      match locationOutcome? r location with
      | none => r
      | some outcome =>
        let r := match own, outcome with
          | false, .ok _ => clearPlaceholder r t.load k (some location)
          | _, _ => r
        setKey r k t (.settled outcome)
    | .settled _ => r

/-- A location task fetches its text, puts it in the place of the reserving key and ends
with the text in which every directive is replaced by its branch's text. -/
def stepLocation (r : Resolution) (l : Location) : Resolution :=
  match Table.get? r.cache.locations l with
  | none => r
  | some t =>
    match t.phase with
    | .queued =>
      let (pause, r) := beginPause r r.loader.fetchingTicks fun disk => r.loader.fetch disk l.text
      setLocation { r with fetched := r.fetched ++ [l.text] } l t (.fetching pause)
    | .fetching pause =>
      match pause.proceed r fun disk => r.loader.fetch disk l.text with
      | .inl pause => setLocation r l t (.fetching pause)
      | .inr (.error fault) => setLocation r l t (.settled (.error fault))
      | .inr (.ok raw) =>
        let r := emit r (.importFetched t.key.text l.text (Text.byteSize raw))
        match stage r l.text raw t.load (l.text :: t.ancestry) with
        | .error fault => setLocation r l t (.settled (.error fault))
        | .ok (staged, branches) =>
          setLocation (substitute r t.load t.key staged) l t (.expanding raw branches)
    | .expanding raw branches =>
      match texts branches with
      | .error fault => setLocation r l t (.settled (.error fault))
      | .ok texts => setLocation r l t (.settled (.ok (fill raw (Directive.scan raw) texts)))
    | .settled _ => r

/-- One step of a task. -/
def step (task : Task) (r : Resolution) : Resolution :=
  match task with
  | .source (.inlining i) => stepInlining r i
  | .source (.location l) => stepLocation r l
  | .branch owner j => stepBranch r owner j
  | .key k => stepKey r k
  | .disk => endCalls r

def machine : Machine Resolution Task :=
  ⟨standing, step⟩

/-! ## Submitting loads -/

/-- A resolution before any load. -/
def start (loader : Loader) (extension : Text) (disk : Disk) : Resolution :=
  { loader, extension, world := ⟨disk, []⟩ }

/-- Adds a load; its number is the count of loads before. -/
def addLoad (r : Resolution) (load : Load) : Resolution :=
  { r with loads := r.loads ++ [load] }

/-- Begins to inline a load; the inlining's number is the count of inlinings before. -/
def begin (r : Resolution) (load : Nat) : Resolution :=
  { r with inlinings := r.inlinings ++ [⟨load, .queued⟩] }

end Resolution

end StyleBatch
