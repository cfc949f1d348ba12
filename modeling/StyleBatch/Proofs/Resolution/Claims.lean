import StyleBatch.Proofs.Expansion
import StyleBatch.Proofs.Resolution.Total

/-!
# Who claims what

The cache forgets who has asked it.  `Recorded lib loads claims r` is a run that comes about like
those of `Reached` and keeps a record of it: the claims of the directives on their keys and of the
keys on their locations, in their order, each with whether the entry was free.

* `Library.occurrences`: the directives of a site.
* `claim?`: what a poll claims, read off the states before and after it.
* `Recorded.reached`: a recorded run is a run, and `recorded_play`: playing loads is recorded.
* `Recorded.keys`, `Recorded.locations`: what was free when it was claimed is what the cache has.
-/

namespace StyleBatch

open Resolution

/-! ## Directives and claims -/

/-- A directive of a site, by its number, and what it imports. -/
structure Occurrence where
  site : Site
  index : Nat
  target : Import
deriving DecidableEq

namespace Library

variable (lib : Library) (loads : List Load)

/-- The directives of a site. -/
def occurrences (s : Site) : List Occurrence :=
  match lib.source? loads s with
  | none => []
  | some (address, source) =>
    match lib.imports address source with
    | .error _ => []
    | .ok is => is.zipIdx.map fun (i, j) => ⟨s, j, i⟩

end Library

/-- A claim on an entry of the cache; `free` if nobody had it before. -/
inductive Claim where
  | key (o : Occurrence) (free : Bool)
  | location (k : Key) (l : Location) (free : Bool)
deriving DecidableEq

namespace Claim

/-- The directive that claims its key. -/
def occurrence? : Claim → Option Occurrence
  | key o _ => some o
  | location .. => none

/-- The key that claims its location. -/
def finder? : Claim → Option Key
  | key .. => none
  | location k _ _ => some k

def newKey? : Claim → Option Key
  | key o true => some o.target.key
  | _ => none

def newLocation? : Claim → Option Location
  | location _ l true => some l
  | _ => none

end Claim

/-! ## Import events -/

def EventKind.isImport : EventKind → Bool
  | importFetched .. | importShared .. => true
  | _ => false

/-- What the log says about imports. -/
def Log.imports (log : Log) : List EventKind :=
  (log.map Event.kind).filter EventKind.isImport

theorem Log.imports_emit (log : Log) (kind : EventKind) :
    (log.emit kind).imports = log.imports ++ [kind].filter EventKind.isImport := by
  rw [imports, emit, List.map_append, List.filter_append, imports, List.map_singleton]

namespace Resolution

/-! ## Recorded runs -/

/-- The site of a branch that works on the load numbered `n`. -/
def Owner.site (n : Nat) : Owner → Site
  | .inlining _ => .load n
  | .location l => .location l

/-- What was claimed by a poll of a task: a branch claims its key when it is fresh, unless it leads
back, and a key has claimed its location when it waits for it afterwards. -/
def claim? (r r' : Resolution) : Task → Option Claim
  | .branch owner j =>
    match (branches r owner)[j]? with
    | some ⟨target, n, ancestry, .fresh⟩ =>
      if target.key.text ∈ ancestry then none
      else some (.key ⟨owner.site n, j, target⟩ (r.key? target.key).isNone)
    | _ => none
  | .key k =>
    match r'.key? k with
    | some ⟨_, _, _, .reserved l _⟩ => some (.location k l (r.location? l).isNone)
    | _ => none
  | _ => none

/-- The states that come about as in `Reached`, with the claims that were made.  Others may write to
the log, but not about imports. -/
inductive Recorded (lib : Library) : List Load → List Claim → Resolution → Prop
  | start : Recorded lib [] [] (Resolution.start lib.loader lib.extension lib.disk)
  | submit {loads : List Load} {claims : List Claim} {r : Resolution} (load : Load) :
      Recorded lib loads claims r → Recorded lib (loads ++ [load]) claims (r.addLoad load)
  | begin {loads : List Load} {claims : List Claim} {r : Resolution} (n : Nat) :
      Recorded lib loads claims r → n < loads.length → (∀ x ∈ r.inlinings, x.load ≠ n) →
      Recorded lib loads claims (r.begin n)
  | poll {loads : List Load} {claims : List Claim} {r : Resolution} {task : Task} :
      Recorded lib loads claims r → CanStep r task →
      Recorded lib loads (claims ++ (claim? r (step task r) task).toList) (step task r)
  | elsewhere {loads : List Load} {claims : List Claim} {r : Resolution} (world : World) :
      Recorded lib loads claims r → lib.SameOn world.disk →
      world.log.imports = r.world.log.imports → Recorded lib loads claims { r with world }

variable {α : Type} {lib : Library} {loads : List Load} {claims : List Claim} {r r' : Resolution}

theorem Recorded.reached (h : Recorded lib loads claims r) : Reached lib loads r := by
  induction h with
  | start => exact .start
  | submit load _ ih => exact ih.submit load
  | begin n _ hn honce ih => exact ih.begin n hn honce
  | poll _ hcan ih => exact ih.poll hcan
  | elsewhere world _ hsame _ ih => exact ih.elsewhere world hsame

/-- Submitting and beginning loads and sweeping them is recorded. -/
theorem recorded_play (lib : Library) (loads : List Load) (fuel : Nat) :
    ∃ claims, Recorded lib loads claims (play lib loads fuel) := by
  have hbegun : Recorded lib loads [] (begun lib loads) :=
    begun_keeps (P := fun loads r => Recorded lib loads [] r) lib loads .start
      (fun _ _ load h => h.submit load) fun _ _ n h => h.begin n
  refine Machine.settle_keeps (P := fun r => ∃ claims, Recorded lib loads claims r) ?_ fuel _ fuel _
    ⟨[], hbegun⟩
  rintro r task ⟨claims, h⟩ hcan
  exact ⟨_, h.poll hcan⟩

/-! ## What a poll claims -/

theorem claim?_branch {owner : Owner} {j : Nat} {b : Branch} (hj : (branches r owner)[j]? = some b)
    (hphase : b.phase = .fresh) (hnot : b.target.key.text ∉ b.ancestry) :
    claim? r r' (.branch owner j) =
      some (.key ⟨owner.site b.load, j, b.target⟩ (r.key? b.target.key).isNone) := by
  obtain ⟨target, n, ancestry, phase⟩ := b
  cases hphase
  rw [claim?, hj]
  exact if_neg hnot

theorem claim?_branch_eq_none {owner : Owner} {j : Nat} {b : Branch}
    (hj : (branches r owner)[j]? = some b)
    (h : b.phase = .fresh → b.target.key.text ∈ b.ancestry) :
    claim? r r' (.branch owner j) = none := by
  obtain ⟨target, n, ancestry, phase⟩ := b
  rw [claim?, hj]
  cases phase with
  | fresh => exact if_pos (h rfl)
  | reserved | settled => rfl

theorem claim?_reserved (r₁ : Resolution) (k : Key) (t : KeyTask) (l : Location) (own : Bool) :
    claim? r (r₁.setKey k t (.reserved l own)) (.key k) =
      some (.location k l (r.location? l).isNone) := by
  rw [claim?, key?_setKey, if_pos rfl]

theorem claim?_settled (r₁ : Resolution) (k : Key) (t : KeyTask) (o : Outcome) :
    claim? r (r₁.setKey k t (.settled o)) (.key k) = none := by
  rw [claim?, key?_setKey, if_pos rfl]

theorem claim?_searching {calls : DiskCalls} {k : Key} {file : Text} {phase : KeyPhase}
    (h : phase.Searching lib calls k file) (r₁ : Resolution) (t : KeyTask) :
    claim? r (r₁.setKey k t phase) (.key k) = none := by
  rw [claim?, key?_setKey, if_pos rfl]
  cases phase with
  | normalizing | locating => rfl
  | reserved | settled => exact h.elim

/-- A branch does not claim a location. -/
theorem filterMap_claim?_branch (f : Claim → Option α) (hf : ∀ o free, f (.key o free) = none)
    (owner : Owner) (j : Nat) : (claim? r r' (.branch owner j)).toList.filterMap f = [] := by
  rw [claim?]
  split
  · split
    · rfl
    · simp [hf]
  · rfl

/-- A key does not claim a key. -/
theorem filterMap_claim?_key (f : Claim → Option α) (hf : ∀ k l free, f (.location k l free) = none)
    (k : Key) : (claim? r r' (.key k)).toList.filterMap f = [] := by
  rw [claim?]
  split
  · simp [hf]
  · rfl

/-! ## The entries of the cache -/

theorem keys_setKey {k : Key} (hk : (r.key? k).isSome) (t : KeyTask) (phase : KeyPhase) :
    Table.keys (r.setKey k t phase).cache.keys = Table.keys r.cache.keys := by
  rw [setKey, Cache.setKey, Table.keys_set, Table.has]
  exact if_pos hk

theorem keys_setKey_of_none {k : Key} (hk : r.key? k = none) (t : KeyTask) (phase : KeyPhase) :
    Table.keys (r.setKey k t phase).cache.keys = Table.keys r.cache.keys ++ [k] := by
  rw [setKey, Cache.setKey, Table.keys_set, Table.has, if_neg]
  rw [key?] at hk
  simp [hk]

theorem keys_setLocation {l : Location} (hl : (r.location? l).isSome) (t : LocationTask)
    (phase : LocationPhase) :
    Table.keys (r.setLocation l t phase).cache.locations = Table.keys r.cache.locations := by
  rw [setLocation, Cache.setLocation, Table.keys_set, Table.has]
  exact if_pos hl

theorem keys_setLocation_of_none {l : Location} (hl : r.location? l = none) (t : LocationTask)
    (phase : LocationPhase) :
    Table.keys (r.setLocation l t phase).cache.locations = Table.keys r.cache.locations ++ [l] := by
  rw [setLocation, Cache.setLocation, Table.keys_set, Table.has, if_neg]
  rw [location?] at hl
  simp [hl]

theorem keys_setBranch (owner : Owner) (j : Nat) (phase : BranchPhase) :
    (r.setBranch owner j phase).cache.keys = r.cache.keys ∧
      Table.keys (r.setBranch owner j phase).cache.locations = Table.keys r.cache.locations := by
  rcases setBranch_cases r owner j phase with heq | ⟨_, _, _, _, _, heq⟩ |
    ⟨l, t, raw, bs, _, hl, _, heq⟩
  · rw [heq]
    exact ⟨rfl, rfl⟩
  · rw [heq]
    exact ⟨rfl, rfl⟩
  · rw [heq]
    exact ⟨rfl, keys_setLocation (by rw [hl]; rfl) _ _⟩

/-- A key that is new in the cache was claimed. -/
theorem Transition.keys {task : Task} (ht : Transition lib r task r') :
    Table.keys r'.cache.keys =
      Table.keys r.cache.keys ++ (claim? r r' task).toList.filterMap Claim.newKey? := by
  have hold : ∀ {r₁ : Resolution} {k : Key} {t : KeyTask} {phase : KeyPhase},
      r₁.cache.keys = r.cache.keys → r.key? k = some t →
      Table.keys (r₁.setKey k t phase).cache.keys = Table.keys r.cache.keys ++
        (claim? r (r₁.setKey k t phase) (.key k)).toList.filterMap Claim.newKey? := by
    intro r₁ k t phase hsame hk
    rw [filterMap_claim?_key _ (fun _ _ _ => rfl), List.append_nil, keys_setKey, hsame]
    rw [key?, hsame]
    exact Option.isSome_iff_exists.mpr ⟨t, hk⟩
  cases ht with
  | looped hj hphase hmem =>
    rw [(keys_setBranch ..).1, claim?_branch_eq_none hj fun _ => hmem]
    exact (List.append_nil _).symm
  | @asked owner j b pauses hj hphase hnot hk =>
    rw [(keys_setBranch ..).1, claim?_branch hj hphase hnot, hk, keys_setKey_of_none hk]
    rfl
  | joined hj hphase hnot hk =>
    rw [(keys_setBranch ..).1, claim?_branch hj hphase hnot, hk]
    exact (List.append_nil _).symm
  | answered hj hphase =>
    rw [(keys_setBranch ..).1, cache_release, claim?_branch_eq_none hj (by simp [hphase])]
    exact (List.append_nil _).symm
  | searched hk => exact hold rfl hk
  | lost hk => exact hold rfl hk
  | circled hk => exact hold rfl hk
  | opened hk => exact hold rfl hk
  | shared hk => exact hold rfl hk
  | passed hk => exact hold (by rw [cache_release]) hk
  | _ => exact (List.append_nil _).symm

/-- A location that is new in the cache was claimed. -/
theorem Transition.locations {task : Task} (ht : Transition lib r task r') :
    Table.keys r'.cache.locations =
      Table.keys r.cache.locations ++ (claim? r r' task).toList.filterMap Claim.newLocation? := by
  have hbranch : ∀ {r₁ : Resolution} {owner : Owner} {j : Nat} {phase : BranchPhase},
      r₁.cache.locations = r.cache.locations →
      Table.keys (r₁.setBranch owner j phase).cache.locations = Table.keys r.cache.locations ++
        (claim? r (r₁.setBranch owner j phase) (.branch owner j)).toList.filterMap
          Claim.newLocation? := by
    intro r₁ owner j phase hsame
    rw [filterMap_claim?_branch _ (fun _ _ => rfl), List.append_nil, (keys_setBranch ..).2, hsame]
  have hold : ∀ {r₁ : Resolution} {l : Location} {t : LocationTask} {phase : LocationPhase},
      r₁.cache.locations = r.cache.locations → r.location? l = some t →
      Table.keys (r₁.setLocation l t phase).cache.locations =
        Table.keys r.cache.locations ++ [] := by
    intro r₁ l t phase hsame hl
    rw [List.append_nil, keys_setLocation, hsame]
    rw [location?, hsame]
    exact Option.isSome_iff_exists.mpr ⟨t, hl⟩
  cases ht with
  | looped | asked | joined => exact hbranch rfl
  | answered => exact hbranch (by rw [cache_release])
  | searched _ _ hsearching =>
    rw [claim?_searching hsearching]
    exact (List.append_nil _).symm
  | lost | circled =>
    rw [claim?_settled]
    exact (List.append_nil _).symm
  | opened _ _ _ _ _ hl =>
    rw [claim?_reserved, hl]
    exact keys_setLocation_of_none hl ..
  | shared _ _ _ _ _ hl =>
    rw [claim?_reserved, hl]
    exact (List.append_nil _).symm
  | passed =>
    rw [claim?_settled, setKey, Cache.setKey, cache_release]
    exact (List.append_nil _).symm
  | requested hl => exact hold rfl hl
  | awaited hl => exact hold rfl hl
  | missing hl => exact hold rfl hl
  | spoiled _ hl => exact hold rfl hl
  | expanded _ hl => exact hold rfl hl
  | filled hl => exact hold rfl hl
  | _ => exact (List.append_nil _).symm

/-- If the claim of every transition is what it adds to the cache, the claims of the run are what
the cache has. -/
theorem Recorded.filterMap_eq (h : Recorded lib loads claims r) (f : Claim → Option α)
    (entries : Cache KeyTask LocationTask → List α) (hstart : entries Cache.empty = [])
    (hpoll : ∀ {r r' : Resolution} {task : Task}, Transition lib r task r' →
      entries r'.cache = entries r.cache ++ (claim? r r' task).toList.filterMap f) :
    claims.filterMap f = entries r.cache := by
  induction h with
  | start => exact hstart.symm
  | submit load _ ih => exact ih
  | begin n _ _ _ ih => exact ih
  | poll hr hcan ih =>
    rw [List.filterMap_append, ih]
    exact (hpoll (transition_of_canStep hr.reached.coherent.1 hcan)).symm
  | elsewhere world _ _ _ ih => exact ih

/-- The keys of the cache are those that were free when they were claimed. -/
theorem Recorded.keys (h : Recorded lib loads claims r) :
    claims.filterMap Claim.newKey? = Table.keys r.cache.keys :=
  h.filterMap_eq Claim.newKey? (fun cache => Table.keys cache.keys) rfl Transition.keys

/-- So it is with the locations. -/
theorem Recorded.locations (h : Recorded lib loads claims r) :
    claims.filterMap Claim.newLocation? = Table.keys r.cache.locations :=
  h.filterMap_eq Claim.newLocation? (fun cache => Table.keys cache.locations) rfl
    Transition.locations

end Resolution

end StyleBatch
