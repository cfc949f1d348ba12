import StyleBatch.Proofs.Resolution.Run

/-!
# What one poll does

`Transition lib r task r'` lists all that a poll of a task can do, with the answers of the loader
read off the library.  `transition_of_canStep`: every poll of a task that can move is one of
these.  The pauses of the loader are dealt with here and nowhere else: `Coherent` says that
whatever a pause is going to answer is what the library says, and `Transition.coherent` keeps
it.

Pauses have a length.  `KeyPhase.work` and `Pause.work` count what is left of one, so that a
transition that only waits says that it waits for less (or that it does nothing).
-/

namespace StyleBatch

namespace Loader

theorem length_candidates_le (loader : Loader) (name : Text) :
    (loader.candidates name).length ≤ 2 := by
  cases loader with
  | memory => simp [candidates]
  | disk root =>
    simp only [candidates]
    split <;> simp

end Loader

namespace Ancestry

theorem holds_iff {ancestry : Ancestry} {entry : Text} :
    holds ancestry entry = true ↔ entry ∈ ancestry := by
  simp [holds]

end Ancestry

namespace Library

variable (lib : Library)

/-- What a candidate leads to. -/
def probe? (candidate : Text) : Option Text :=
  lib.loader.probe? lib.disk candidate

/-- The search that is left when the candidates before `candidates` were in vain. -/
def seek (name : Text) (candidates : List Text) : Except Fault Location :=
  match candidates.findSome? lib.probe? with
  | some address => .ok (Location.ofAddress address)
  | none => .error (lib.loader.notLocated name)

variable {lib}

theorem find_eq_error {base file : Text} {fault : Fault}
    (h : lib.loader.normalize file base = .error fault) : lib.find base file = .error fault := by
  simp [find, h, bind, Except.bind]

theorem find_eq_seek {base file name : Text} (h : lib.loader.normalize file base = .ok name) :
    lib.find base file = lib.seek name (lib.loader.candidates name) := by
  have hlocate : lib.loader.locate lib.disk name =
      match (lib.loader.candidates name).findSome? lib.probe? with
      | some address => .ok address
      | none => .error (lib.loader.notLocated name) := rfl
  simp only [find, h, bind, Except.bind, hlocate, seek]
  cases (lib.loader.candidates name).findSome? lib.probe? <;> rfl

theorem seek_nil (name : Text) : lib.seek name [] = .error (lib.loader.notLocated name) := rfl

theorem seek_cons (name candidate : Text) (rest : List Text) :
    lib.seek name (candidate :: rest) = match lib.probe? candidate with
      | some address => .ok (Location.ofAddress address)
      | none => lib.seek name rest := by
  rw [seek, List.findSome?_cons]
  cases lib.probe? candidate <;> rfl

end Library

namespace Resolution

/-! ## Pauses -/

namespace DiskCalls

/-- The number of calls that have not ended. -/
def pending (calls : DiskCalls) : Nat :=
  calls.begun - calls.ended

/-- Some calls more have begun. -/
def Grows (calls calls' : DiskCalls) : Prop :=
  calls.begun ≤ calls'.begun ∧ calls'.ended = calls.ended

theorem Grows.refl (calls : DiskCalls) : calls.Grows calls :=
  ⟨le_rfl, rfl⟩

end DiskCalls

namespace Pause

variable {α : Type}

/-- What is left of a pause. -/
def work : Pause α → Nat
  | .ticks left => left
  | .call .. => 0

/-- A pause that is going to give this answer: a call that has begun has it already. -/
def Tells (calls : DiskCalls) (answer : α) : Pause α → Prop
  | .ticks _ => True
  | .call number given => number < calls.begun ∧ given = answer

theorem Tells.mono {calls calls' : DiskCalls} {answer : α} {pause : Pause α}
    (h : pause.Tells calls answer) (hbegun : calls.begun ≤ calls'.begun) :
    pause.Tells calls' answer := by
  cases pause with
  | ticks => trivial
  | call => exact ⟨lt_of_lt_of_le h.1 hbegun, h.2⟩

theorem proceed_inl {r : Resolution} {answer : Disk → α} {pause pause' : Pause α} {a : α}
    (htells : pause.Tells r.calls a) (h : pause.proceed r answer = .inl pause') :
    pause'.Tells r.calls a ∧
      (pause'.work < pause.work ∨ pause' = pause ∧ r.calls.ended < r.calls.begun) := by
  cases pause with
  | ticks left =>
    cases left with
    | zero => cases h
    | succ left =>
      cases h
      exact ⟨trivial, Or.inl (Nat.lt_succ_self left)⟩
  | call number given =>
    simp only [proceed] at h
    split at h
    · cases h
    · rename_i hended
      cases h
      exact ⟨htells, Or.inr ⟨rfl, lt_of_le_of_lt (not_lt.mp hended) htells.1⟩⟩

theorem proceed_inr {r : Resolution} {answer : Disk → α} {pause : Pause α} {b : α}
    (htells : pause.Tells r.calls (answer r.world.disk)) (h : pause.proceed r answer = .inr b) :
    b = answer r.world.disk := by
  cases pause with
  | ticks left =>
    cases left with
    | zero =>
      cases h
      rfl
    | succ left => cases h
  | call number given =>
    simp only [proceed] at h
    split at h
    · cases h
      exact htells.2
    · cases h

end Pause

theorem beginPause_spec {α : Type} (r : Resolution) (ticks : Nat) (answer : Disk → α)
    (hcalls : r.calls.ended ≤ r.calls.begun) :
    ∃ calls, (beginPause r ticks answer).2 = { r with calls } ∧ r.calls.Grows calls ∧
      (beginPause r ticks answer).1.Tells calls (answer r.world.disk) ∧
      (beginPause r ticks answer).1.work + calls.pending ≤ ticks + 1 + r.calls.pending := by
  rw [beginPause]
  split
  · exact ⟨r.calls, rfl, .refl _, trivial, by simp only [Pause.work]; omega⟩
  · refine ⟨_, rfl, ⟨by simp, rfl⟩, ⟨by simp, rfl⟩, ?_⟩
    simp only [Pause.work, DiskCalls.pending]
    omega

/-! ## Phases of a search -/

namespace KeyPhase

/-- What is left of a search for a location, and of waiting for it. -/
def work : KeyPhase → Nat
  | .normalizing pauses => pauses + 10
  | .locating _ pause candidates => 3 * candidates.length + pause.work + 1
  | .reserved .. => 1
  | .settled _ => 0

theorem work_reserved (l : Location) (own : Bool) : (reserved l own).work = 1 := rfl

theorem work_settled (o : Outcome) : (settled o).work = 0 := rfl

theorem work_locating (name : Text) (pause : Pause (Option Text)) (candidates : List Text) :
    (locating name pause candidates).work = 3 * candidates.length + pause.work + 1 := rfl

/-- A search that is going to find what the library says. -/
def Searching (lib : Library) (calls : DiskCalls) (k : Key) (file : Text) : KeyPhase → Prop
  | .normalizing _ => True
  | .locating name pause candidates =>
    lib.find k.base file = lib.seek name candidates ∧
      pause.Tells calls (candidates.head?.bind lib.probe?)
  | _ => False

theorem Searching.mono {lib : Library} {calls calls' : DiskCalls} {k : Key} {file : Text}
    {phase : KeyPhase} (h : phase.Searching lib calls k file) (hbegun : calls.begun ≤ calls'.begun) :
    phase.Searching lib calls' k file := by
  cases phase with
  | locating name pause candidates => exact ⟨h.1, h.2.mono hbegun⟩
  | _ => exact h

end KeyPhase

/-- Nothing that is under way is at odds with the library, and nothing is in the cache twice. -/
structure Coherent (lib : Library) (r : Resolution) : Prop where
  loader : r.loader = lib.loader
  extension : r.extension = lib.extension
  same : lib.SameOn r.world.disk
  calls : r.calls.ended ≤ r.calls.begun
  loads : ∀ x ∈ r.inlinings, x.load < r.loads.length
  nodupKeys : (Table.keys r.cache.keys).Nodup
  nodupLocations : (Table.keys r.cache.locations).Nodup
  keys : ∀ k t, r.key? k = some t → t.phase.Searching lib r.calls k t.file ∨
    (∃ l own, t.phase = .reserved l own) ∨ ∃ o, t.phase = .settled o
  locations : ∀ l t pause, r.location? l = some t → t.phase = .fetching pause →
    pause.Tells r.calls (lib.fetch l)

/-- The branches of a source, none of them polled. -/
def freshBranches (is : List Import) (n : Nat) (ancestry : Ancestry) : List Branch :=
  is.map fun i => ⟨i, n, ancestry, .fresh⟩

/-- The task that a branch starts for its key. -/
def Branch.keyTask (b : Branch) (pauses : Nat) : KeyTask :=
  ⟨b.target.file, b.load, b.ancestry, .normalizing pauses⟩

/-- The task that a key starts for its location. -/
def KeyTask.locationTask (t : KeyTask) (k : Key) : LocationTask :=
  ⟨k, t.load, k.text :: t.ancestry, .queued⟩

/-- A source with a placeholder in the place of every import. -/
def marked (raw : Text) (is : List Import) : Text :=
  fill raw (Directive.scan raw) (is.map fun i => i.key.placeholder)

/-- Whether all branches are settled. -/
def AllSettled (bs : List Branch) : Prop :=
  ∀ b ∈ bs, ∃ o, b.phase = .settled o

/-- What a poll of a task does. -/
inductive Transition (lib : Library) (r : Resolution) : Task → Resolution → Prop
  /-- The disk ends its calls. -/
  | ended : r.calls.ended < r.calls.begun → Transition lib r .disk (endCalls r)
  /-- A load without imports is settled. -/
  | plain {i n : Nat} :
      r.inlinings[i]? = some ⟨n, .queued⟩ → Directive.scan (loadText r n) = [] →
      Transition lib r (.source (.inlining i)) (setInlining r i (.settled (.ok (loadText r n))))
  | refused {i n : Nat} {load : Load} {fault : Fault} :
      r.inlinings[i]? = some ⟨n, .queued⟩ → r.loads[n]? = some load →
      lib.imports load.address load.text = .error fault →
      Transition lib r (.source (.inlining i)) (setInlining r i (.settled (.error fault)))
  | staged {i n : Nat} {load : Load} {is : List Import} :
      r.inlinings[i]? = some ⟨n, .queued⟩ → r.loads[n]? = some load →
      Directive.scan load.text ≠ [] → lib.imports load.address load.text = .ok is →
      Transition lib r (.source (.inlining i)) (setInlining
        (setLoadText r n (marked load.text is)) i (.expanding (freshBranches is n [load.address])))
  | inlined {i n : Nat} {bs : List Branch} :
      r.inlinings[i]? = some ⟨n, .expanding bs⟩ → AllSettled bs →
      Transition lib r (.source (.inlining i)) (setInlining r i
        (.settled ((texts bs).map fun _ => loadText r n)))
  /-- A branch leads back to its own ancestry. -/
  | looped {owner : Owner} {j : Nat} {b : Branch} :
      (branches r owner)[j]? = some b → b.phase = .fresh → b.target.key.text ∈ b.ancestry →
      Transition lib r (.branch owner j) (setBranch r owner j
        (.settled (.error (b.ancestry.circular b.target.key.text))))
  | asked {owner : Owner} {j : Nat} {b : Branch} (pauses : Nat) :
      (branches r owner)[j]? = some b → b.phase = .fresh → b.target.key.text ∉ b.ancestry →
      r.key? b.target.key = none →
      Transition lib r (.branch owner j) (setBranch
        (setKey r b.target.key (b.keyTask pauses) (.normalizing pauses)) owner j (.reserved true))
  | joined {owner : Owner} {j : Nat} {b : Branch} {t : KeyTask} :
      (branches r owner)[j]? = some b → b.phase = .fresh → b.target.key.text ∉ b.ancestry →
      r.key? b.target.key = some t →
      Transition lib r (.branch owner j) (setBranch r owner j (.reserved false))
  | answered {owner : Owner} {j : Nat} {b : Branch} {own : Bool} {o : Outcome} :
      (branches r owner)[j]? = some b → b.phase = .reserved own →
      keyOutcome? r b.target.key = some o →
      Transition lib r (.branch owner j) (setBranch
        (release r own o b.load b.target.key none) owner j (.settled o))
  /-- A key goes on searching. -/
  | searched {k : Key} {t : KeyTask} {phase : KeyPhase} {calls : DiskCalls} :
      r.key? k = some t → t.phase.Searching lib r.calls k t.file →
      phase.Searching lib calls k t.file → r.calls.Grows calls →
      (phase.work + calls.pending < t.phase.work + r.calls.pending ∨
        phase = t.phase ∧ calls = r.calls ∧ r.calls.ended < r.calls.begun) →
      Transition lib r (.key k) (setKey { r with calls } k t phase)
  | lost {k : Key} {t : KeyTask} {fault : Fault} :
      r.key? k = some t → t.phase.Searching lib r.calls k t.file →
      lib.find k.base t.file = .error fault →
      Transition lib r (.key k) (setKey r k t (.settled (.error fault)))
  | circled {k : Key} {t : KeyTask} {l : Location} :
      r.key? k = some t → t.phase.Searching lib r.calls k t.file →
      lib.find k.base t.file = .ok l → l.text ∈ t.ancestry →
      Transition lib r (.key k) (setKey r k t (.settled (.error (t.ancestry.circular l.text))))
  | opened {k : Key} {t : KeyTask} {l : Location} :
      r.key? k = some t → t.phase.Searching lib r.calls k t.file → 4 ≤ t.phase.work →
      lib.find k.base t.file = .ok l → l.text ∉ t.ancestry → r.location? l = none →
      Transition lib r (.key k) (setKey (setLocation r l (t.locationTask k) .queued) k t
        (.reserved l true))
  | shared {k : Key} {t : KeyTask} {l : Location} {u : LocationTask} :
      r.key? k = some t → t.phase.Searching lib r.calls k t.file → 4 ≤ t.phase.work →
      lib.find k.base t.file = .ok l → l.text ∉ t.ancestry → r.location? l = some u →
      Transition lib r (.key k) (setKey r k t (.reserved l false))
  | passed {k : Key} {t : KeyTask} {l : Location} {own : Bool} {o : Outcome} :
      r.key? k = some t → t.phase = .reserved l own → locationOutcome? r l = some o →
      Transition lib r (.key k) (setKey (release r own o t.load k (some l)) k t (.settled o))
  /-- A location's text is asked for. -/
  | requested {l : Location} {t : LocationTask} {pause : Pause Outcome} {calls : DiskCalls} :
      r.location? l = some t → t.phase = .queued → pause.Tells calls (lib.fetch l) →
      r.calls.Grows calls →
      pause.work + calls.pending ≤ lib.loader.fetchingTicks + 1 + r.calls.pending →
      Transition lib r (.source (.location l)) (setLocation
        { r with calls, fetched := r.fetched ++ [l.text] } l t (.fetching pause))
  | awaited {l : Location} {t : LocationTask} {pause pause' : Pause Outcome} :
      r.location? l = some t → t.phase = .fetching pause → pause'.Tells r.calls (lib.fetch l) →
      (pause'.work < pause.work ∨ pause' = pause ∧ r.calls.ended < r.calls.begun) →
      Transition lib r (.source (.location l)) (setLocation r l t (.fetching pause'))
  | missing {l : Location} {t : LocationTask} {pause : Pause Outcome} {fault : Fault} :
      r.location? l = some t → t.phase = .fetching pause → lib.fetch l = .error fault →
      Transition lib r (.source (.location l)) (setLocation r l t (.settled (.error fault)))
  | spoiled {l : Location} {t : LocationTask} {pause : Pause Outcome} {raw : Text} {fault : Fault}
      (kind : EventKind) :
      r.location? l = some t → t.phase = .fetching pause → lib.fetch l = .ok raw →
      lib.imports l.text raw = .error fault →
      Transition lib r (.source (.location l)) (setLocation (emit r kind) l t
        (.settled (.error fault)))
  | expanded {l : Location} {t : LocationTask} {pause : Pause Outcome} {raw : Text}
      {is : List Import} (kind : EventKind) :
      r.location? l = some t → t.phase = .fetching pause → lib.fetch l = .ok raw →
      lib.imports l.text raw = .ok is →
      Transition lib r (.source (.location l)) (setLocation
        (substitute (emit r kind) t.load t.key (marked raw is)) l t
        (.expanding raw (freshBranches is t.load (l.text :: t.ancestry))))
  | filled {l : Location} {t : LocationTask} {raw : Text} {bs : List Branch} :
      r.location? l = some t → t.phase = .expanding raw bs → AllSettled bs →
      Transition lib r (.source (.location l)) (setLocation r l t
        (.settled ((texts bs).map (fill raw (Directive.scan raw)))))

/-! ## Writing keeps to the library -/

namespace Coherent

variable {lib : Library} {r r' : Resolution}

/-- Only the cache, the inlinings, the number of loads, the calls and the disk count. -/
theorem congr (h : Coherent lib r) (hloader : r'.loader = r.loader)
    (hextension : r'.extension = r.extension) (hcache : r'.cache = r.cache)
    (hinlinings : r'.inlinings = r.inlinings) (hloads : r'.loads.length = r.loads.length)
    (hcalls : r'.calls = r.calls) (hdisk : r'.world.disk = r.world.disk) : Coherent lib r' where
  loader := hloader.trans h.loader
  extension := hextension.trans h.extension
  same := hdisk ▸ h.same
  calls := hcalls ▸ h.calls
  loads x hx := hloads ▸ h.loads x (hinlinings ▸ hx)
  nodupKeys := hcache ▸ h.nodupKeys
  nodupLocations := hcache ▸ h.nodupLocations
  keys k t ht := by
    rw [key?, hcache] at ht
    rw [hcalls]
    exact h.keys k t ht
  locations l t pause ht hphase := by
    rw [location?, hcache] at ht
    rw [hcalls]
    exact h.locations l t pause ht hphase

theorem setLoadText (h : Coherent lib r) (n : Nat) (text : Text) :
    Coherent lib (r.setLoadText n text) :=
  h.congr rfl rfl rfl rfl (length_loads_setLoadText ..) rfl rfl

theorem emit (h : Coherent lib r) (kind : EventKind) : Coherent lib (r.emit kind) :=
  h.congr rfl rfl rfl rfl rfl rfl rfl

theorem fetch (h : Coherent lib r) (l : Location) :
    Coherent lib { r with fetched := r.fetched ++ [l.text] } :=
  h.congr rfl rfl rfl rfl rfl rfl rfl

theorem release (h : Coherent lib r) (own : Bool) (o : Outcome) (n : Nat) (k : Key)
    (location : Option Location) : Coherent lib (r.release own o n k location) := by
  rcases release_cases r own o n k location with heq | ⟨-, -, heq⟩
  · rw [heq]
    exact h
  · rw [heq]
    exact (h.setLoadText n _).emit _

theorem setInlining (h : Coherent lib r) (i : Nat) (phase : InliningPhase) :
    Coherent lib (r.setInlining i phase) where
  loader := h.loader
  extension := h.extension
  same := h.same
  calls := h.calls
  loads x hx := by
    obtain ⟨i', hi'⟩ := List.mem_iff_getElem?.mp hx
    rw [getElem?_setInlining] at hi'
    split at hi'
    · obtain ⟨y, hy, rfl⟩ := Option.map_eq_some_iff.mp hi'
      exact h.loads y (List.mem_of_getElem? hy)
    · exact h.loads x (List.mem_of_getElem? hi')
  nodupKeys := h.nodupKeys
  nodupLocations := h.nodupLocations
  keys := h.keys
  locations := h.locations

theorem setKey (h : Coherent lib r) (k : Key) (t : KeyTask) {phase : KeyPhase}
    (hphase : phase.Searching lib r.calls k t.file ∨ (∃ l own, phase = .reserved l own) ∨
      ∃ o, phase = .settled o) : Coherent lib (r.setKey k t phase) where
  loader := h.loader
  extension := h.extension
  same := h.same
  calls := h.calls
  loads := h.loads
  nodupKeys := Table.nodup_keys_set h.nodupKeys ..
  nodupLocations := h.nodupLocations
  keys k' t' ht' := by
    rw [key?_setKey] at ht'
    split at ht'
    · rename_i hkk'
      subst hkk'
      cases ht'
      exact hphase
    · exact h.keys k' t' ht'
  locations := h.locations

theorem setLocation (h : Coherent lib r) (l : Location) (t : LocationTask) {phase : LocationPhase}
    (hphase : ∀ pause, phase = .fetching pause → pause.Tells r.calls (lib.fetch l)) :
    Coherent lib (r.setLocation l t phase) where
  loader := h.loader
  extension := h.extension
  same := h.same
  calls := h.calls
  loads := h.loads
  nodupKeys := h.nodupKeys
  nodupLocations := Table.nodup_keys_set h.nodupLocations ..
  keys := h.keys
  locations l' t' pause ht' hpause := by
    rw [location?_setLocation] at ht'
    split at ht'
    · rename_i hll'
      subst hll'
      cases ht'
      exact hphase pause hpause
    · exact h.locations l' t' pause ht' hpause

theorem setBranch (h : Coherent lib r) (owner : Owner) (j : Nat) (phase : BranchPhase) :
    Coherent lib (r.setBranch owner j phase) := by
  rcases setBranch_cases r owner j phase with heq | ⟨_, _, _, _, _, heq⟩ |
    ⟨_, _, _, _, _, _, _, heq⟩
  · rw [heq]
    exact h
  · rw [heq]
    exact h.setInlining _ _
  · rw [heq]
    exact h.setLocation _ _ (fun _ h => nomatch h)

/-- What has begun goes on while calls begin. -/
theorem withCalls (h : Coherent lib r) {calls : DiskCalls} (hbegun : r.calls.begun ≤ calls.begun)
    (hended : calls.ended ≤ calls.begun) : Coherent lib { r with calls } where
  loader := h.loader
  extension := h.extension
  same := h.same
  calls := hended
  loads := h.loads
  nodupKeys := h.nodupKeys
  nodupLocations := h.nodupLocations
  keys k t ht := (h.keys k t ht).imp_left fun hsearching => hsearching.mono hbegun
  locations l t pause ht hphase := (h.locations l t pause ht hphase).mono hbegun

end Coherent

/-! ## Every poll is a transition -/

section Poll

variable {lib : Library} {r : Resolution}

/-- A source is staged as the library reads it. -/
theorem stage_eq (hloader : r.loader = lib.loader) (hextension : r.extension = lib.extension)
    (address raw : Text) (n : Nat) (ancestry : Ancestry) :
    stage r address raw n ancestry = (lib.imports address raw).map fun is =>
      (marked raw is, freshBranches is n ancestry) := by
  rw [stage, Library.imports, Library.base, hloader, hextension]
  cases imports lib.extension (Address.base lib.loader.workingDirectory? address) address
    (Directive.scan raw) <;> rfl

/-- A source that can move has no open branch. -/
theorem allSettled_of_standingOfSource {owner : Owner} {bs : List Branch}
    (h : standingOfSource owner bs = .ready ∨ standingOfSource owner bs = .asleep) :
    AllSettled bs := by
  have hopen : openBranches owner bs = [] := by
    rw [standingOfSource] at h
    cases hbranches : openBranches owner bs with
    | nil => rfl
    | cons => simp [hbranches] at h
  intro b hb
  obtain ⟨j, hj⟩ := List.mem_iff_getElem?.mp hb
  have hmem : (b, j) ∈ bs.zipIdx := List.mem_zipIdx_iff_getElem?.mpr hj
  simp only [openBranches, List.map_eq_nil_iff, List.filter_eq_nil_iff] at hopen
  have hb := hopen _ hmem
  cases hphase : b.phase with
  | settled o => exact ⟨o, rfl⟩
  | _ => simp [hphase, BranchPhase.outcome?] at hb

theorem transition_stepInlining (h : Coherent lib r) {i : Nat}
    (hcan : CanStep r (.source (.inlining i))) :
    Transition lib r (.source (.inlining i)) (stepInlining r i) := by
  rw [CanStep, Machine.CanStep] at hcan
  simp only [machine, standing] at hcan
  cases hi : r.inlinings[i]? with
  | none => simp [hi] at hcan
  | some x =>
    obtain ⟨n, phase⟩ := x
    simp only [hi] at hcan
    have hn : n < r.loads.length := h.loads _ (List.mem_of_getElem? hi)
    have hload : r.loads[n]? = some r.loads[n] := List.getElem?_eq_getElem hn
    have htext : loadText r n = r.loads[n].text := by simp [loadText, hload]
    cases phase with
    | queued =>
      simp only [stepInlining, hi, hload, htext]
      split
      · rename_i hscan
        rw [← htext] at hscan ⊢
        exact .plain hi (List.isEmpty_iff.mp hscan)
      · rename_i hscan
        rw [stage_eq h.loader h.extension]
        cases himports : lib.imports r.loads[n].address r.loads[n].text with
        | error fault => exact .refused hi hload himports
        | ok is => exact .staged hi hload (fun h => hscan (by rw [h]; rfl)) himports
    | expanding bs =>
      have hbs := allSettled_of_standingOfSource hcan
      have hinlined : Transition lib r (.source (.inlining i))
          (setInlining r i (.settled ((texts bs).map fun _ => loadText r n))) := .inlined hi hbs
      simp only [stepInlining, hi]
      cases htexts : texts bs with
      | error fault => simpa [htexts, Except.map] using hinlined
      | ok ts => simpa [htexts, Except.map] using hinlined
    | settled o => simp at hcan

theorem transition_stepBranch {owner : Owner} {j : Nat} (hcan : CanStep r (.branch owner j)) :
    Transition lib r (.branch owner j) (stepBranch r owner j) := by
  rw [CanStep, Machine.CanStep] at hcan
  simp only [machine, standing] at hcan
  cases hj : (branches r owner)[j]? with
  | none => simp [hj] at hcan
  | some b =>
    simp only [hj] at hcan
    simp only [stepBranch, hj]
    cases hphase : b.phase with
    | fresh =>
      simp only
      split
      · rename_i hholds
        exact .looped hj hphase (Ancestry.holds_iff.mp hholds)
      · rename_i hholds
        have hnot : b.target.key.text ∉ b.ancestry := fun h => hholds (Ancestry.holds_iff.mpr h)
        rw [Cache.reserveKey, Table.reserve, Table.has]
        cases hkey : Table.get? r.cache.keys b.target.key with
        | none => exact .asked r.loader.normalizingTicks hj hphase hnot hkey
        | some t => exact .joined hj hphase hnot hkey
    | reserved own =>
      simp only [hphase] at hcan
      cases ho : keyOutcome? r b.target.key with
      | none => simp [ho, standingOfWait] at hcan
      | some o => exact .answered hj hphase ho
    | settled o => simp [hphase] at hcan

/-- What a probe answers under a disk that is the same for the library. -/
theorem probe?_eq (h : Coherent lib r) (candidates : List Text) :
    probe? r candidates r.world.disk = candidates.head?.bind lib.probe? := by
  cases candidates with
  | nil => rfl
  | cons candidate rest =>
    rw [probe?, List.head?_cons, Option.bind_some, Option.bind_some, h.loader, h.same.2]
    rfl

/-- A search that begins with a candidate. -/
theorem transition_beginLocating (h : Coherent lib r) {k : Key} {t : KeyTask} {name : Text}
    {candidates : List Text} (hk : r.key? k = some t)
    (hsearching : t.phase.Searching lib r.calls k t.file)
    (hfind : lib.find k.base t.file = lib.seek name candidates)
    (hwork : 3 * candidates.length + 3 < t.phase.work) :
    Transition lib r (.key k) (beginLocating r k t name candidates) := by
  obtain ⟨calls, hstate, hgrows, htells, hpause⟩ :=
    beginPause_spec r 1 (probe? r candidates) h.calls
  rw [probe?_eq h] at htells
  have heq : beginLocating r k t name candidates =
      setKey { r with calls } k t
        (.locating name (beginPause r 1 (probe? r candidates)).1 candidates) := by
    rw [beginLocating]
    dsimp only
    rw [hstate]
  rw [heq]
  refine .searched hk hsearching ⟨hfind, htells⟩ hgrows (Or.inl ?_)
  rw [KeyPhase.work_locating]
  omega

/-- A search that has found an address. -/
theorem transition_reserveLocation {k : Key} {t : KeyTask} {address : Text}
    (hk : r.key? k = some t) (hsearching : t.phase.Searching lib r.calls k t.file)
    (hwork : 4 ≤ t.phase.work)
    (hfind : lib.find k.base t.file = .ok (Location.ofAddress address)) :
    Transition lib r (.key k) (reserveLocation r k t address) := by
  rw [reserveLocation]
  dsimp only
  split
  · rename_i hholds
    exact .circled hk hsearching hfind (Ancestry.holds_iff.mp hholds)
  · rename_i hholds
    have hnot : (Location.ofAddress address).text ∉ t.ancestry :=
      fun h => hholds (Ancestry.holds_iff.mpr h)
    rw [Cache.reserveLocation, Table.reserve, Table.has]
    cases hl : Table.get? r.cache.locations (Location.ofAddress address) with
    | none => exact .opened hk hsearching hwork hfind hnot hl
    | some u => exact .shared hk hsearching hwork hfind hnot hl

theorem transition_stepKey (h : Coherent lib r) {k : Key} (hcan : CanStep r (.key k)) :
    Transition lib r (.key k) (stepKey r k) := by
  rw [CanStep, Machine.CanStep] at hcan
  simp only [machine, standing] at hcan
  cases hk : Table.get? r.cache.keys k with
  | none => simp [hk] at hcan
  | some t =>
    simp only [hk] at hcan
    simp only [stepKey, hk]
    have hsearching := h.keys k t hk
    cases hphase : t.phase with
    | normalizing pauses =>
      simp only [hphase, reduceCtorEq, exists_false, or_false, or_self] at hsearching
      rw [← hphase] at hsearching
      cases pauses with
      | succ pauses =>
        refine .searched hk hsearching trivial (.refl _) (Or.inl ?_)
        rw [hphase]
        simp only [KeyPhase.work]
        omega
      | zero =>
        simp only [h.loader]
        cases hname : lib.loader.normalize t.file k.base with
        | error fault => exact .lost hk hsearching (Library.find_eq_error hname)
        | ok name =>
          refine transition_beginLocating h hk hsearching (Library.find_eq_seek hname) ?_
          have hlength := lib.loader.length_candidates_le name
          rw [hphase]
          simp only [KeyPhase.work]
          omega
    | locating name pause candidates =>
      simp only [hphase, reduceCtorEq, exists_false, or_false, or_self] at hsearching
      obtain ⟨hfind, htells⟩ := hsearching
      have hsearching : t.phase.Searching lib r.calls k t.file := by
        rw [hphase]
        exact ⟨hfind, htells⟩
      rw [← probe?_eq h] at htells
      dsimp only
      cases hproceed : pause.proceed r (probe? r candidates) with
      | inl pause' =>
        obtain ⟨htells', hwork⟩ := Pause.proceed_inl htells hproceed
        rw [probe?_eq h] at htells'
        refine .searched hk hsearching ⟨hfind, htells'⟩ (.refl _) ?_
        rw [hphase]
        rcases hwork with hwork | ⟨rfl, hended⟩
        · left
          simp only [KeyPhase.work]
          omega
        · exact Or.inr ⟨rfl, rfl, hended⟩
      | inr found? =>
        have hfound := Pause.proceed_inr htells hproceed
        rw [probe?_eq h] at hfound
        cases candidates with
        | nil =>
          subst hfound
          refine .lost hk hsearching ?_
          rw [hfind, h.loader]
          rfl
        | cons candidate rest =>
          rw [Library.seek_cons] at hfind
          rw [List.head?_cons, Option.bind_some] at hfound
          rw [← hfound] at hfind
          cases found? with
          | some address =>
            refine transition_reserveLocation hk hsearching ?_ hfind
            rw [hphase, KeyPhase.work_locating, List.length_cons]
            omega
          | none =>
            cases rest with
            | nil =>
              refine .lost hk hsearching ?_
              rw [hfind, Library.seek_nil, h.loader]
            | cons candidate' rest =>
              refine transition_beginLocating h hk hsearching hfind ?_
              simp only [hphase, KeyPhase.work_locating, List.tail_cons, List.length_cons]
              omega
    | reserved l own =>
      simp only [hphase] at hcan
      cases ho : locationOutcome? r l with
      | none => simp [ho, standingOfWait] at hcan
      | some o =>
        dsimp only
        rw [ho]
        exact .passed hk hphase ho
    | settled o => simp [hphase] at hcan

theorem transition_stepLocation (h : Coherent lib r) {l : Location}
    (hcan : CanStep r (.source (.location l))) :
    Transition lib r (.source (.location l)) (stepLocation r l) := by
  rw [CanStep, Machine.CanStep] at hcan
  simp only [machine, standing] at hcan
  cases hl : Table.get? r.cache.locations l with
  | none => simp [hl] at hcan
  | some t =>
    simp only [hl] at hcan
    simp only [stepLocation, hl]
    have hfetch : r.loader.fetch r.world.disk l.text = lib.fetch l := by
      rw [h.loader, h.same.1, Library.fetch]
    cases hphase : t.phase with
    | queued =>
      obtain ⟨calls, hstate, hgrows, htells, hpause⟩ := beginPause_spec r r.loader.fetchingTicks
        (fun disk => r.loader.fetch disk l.text) h.calls
      simp only [hfetch] at htells
      dsimp only
      rw [hstate]
      exact .requested hl hphase htells hgrows (h.loader ▸ hpause)
    | fetching pause =>
      have htells : pause.Tells r.calls (r.loader.fetch r.world.disk l.text) := by
        rw [hfetch]
        exact h.locations l t pause hl hphase
      dsimp only
      cases hproceed : pause.proceed r fun disk => r.loader.fetch disk l.text with
      | inl pause' =>
        obtain ⟨htells', hwork⟩ := Pause.proceed_inl htells hproceed
        rw [hfetch] at htells'
        exact .awaited hl hphase htells' hwork
      | inr o =>
        have ho := Pause.proceed_inr htells hproceed
        rw [hfetch] at ho
        cases o with
        | error fault => exact .missing hl hphase ho.symm
        | ok raw =>
          dsimp only
          rw [stage_eq (h.emit _).loader (h.emit _).extension]
          cases himports : lib.imports l.text raw with
          | error fault => exact .spoiled _ hl hphase ho.symm himports
          | ok is => exact .expanded _ hl hphase ho.symm himports
    | expanding raw bs =>
      simp only [hphase] at hcan
      have hfilled : Transition lib r (.source (.location l)) (setLocation r l t
          (.settled ((texts bs).map (fill raw (Directive.scan raw))))) :=
        .filled hl hphase (allSettled_of_standingOfSource hcan)
      dsimp only
      cases htexts : texts bs with
      | error fault => simpa [htexts, Except.map] using hfilled
      | ok ts => simpa [htexts, Except.map] using hfilled
    | settled o => simp [hphase] at hcan

/-- A poll of a task that can move is a transition. -/
theorem transition_of_canStep (h : Coherent lib r) {task : Task} (hcan : CanStep r task) :
    Transition lib r task (step task r) := by
  cases task with
  | source owner =>
    cases owner with
    | inlining i => exact transition_stepInlining h hcan
    | location l => exact transition_stepLocation h hcan
  | branch owner j => exact transition_stepBranch hcan
  | key k => exact transition_stepKey h hcan
  | disk =>
    refine .ended ?_
    rw [CanStep, Machine.CanStep] at hcan
    simp only [machine, standing] at hcan
    by_contra hnot
    simp [hnot] at hcan

end Poll

/-! ## Transitions keep to the library -/

theorem Transition.coherent {lib : Library} {r r' : Resolution} {task : Task}
    (ht : Transition lib r task r') (h : Coherent lib r) : Coherent lib r' := by
  have hgrows : ∀ calls, r.calls.Grows calls → Coherent lib { r with calls } := by
    rintro calls ⟨hbegun, hended⟩
    exact h.withCalls hbegun (hended ▸ h.calls.trans hbegun)
  cases ht with
  | ended => exact h.withCalls le_rfl le_rfl
  | plain | refused | inlined => exact h.setInlining _ _
  | staged => exact (h.setLoadText _ _).setInlining _ _
  | looped | joined => exact h.setBranch _ _ _
  | @asked _ _ b pauses =>
    have hkey : Coherent lib (r.setKey b.target.key (b.keyTask pauses) (.normalizing pauses)) :=
      h.setKey b.target.key (b.keyTask pauses) (Or.inl trivial)
    exact hkey.setBranch _ _ _
  | answered => exact (h.release ..).setBranch _ _ _
  | searched _ _ hphase hcalls => exact (hgrows _ hcalls).setKey _ _ (Or.inl hphase)
  | lost | circled => exact h.setKey _ _ (Or.inr (Or.inr ⟨_, rfl⟩))
  | opened =>
    refine Coherent.setKey (h.setLocation _ _ ?_) _ _ (Or.inr (Or.inl ⟨_, _, rfl⟩))
    exact fun _ h => nomatch h
  | shared => exact h.setKey _ _ (Or.inr (Or.inl ⟨_, _, rfl⟩))
  | passed => exact (h.release ..).setKey _ _ (Or.inr (Or.inr ⟨_, rfl⟩))
  | @requested l _ _ _ _ _ htells hcalls =>
    refine ((hgrows _ hcalls).fetch l).setLocation _ _ ?_
    rintro pause ⟨⟩
    exact htells
  | awaited _ _ htells =>
    refine h.setLocation _ _ ?_
    rintro pause ⟨⟩
    exact htells
  | missing | filled => exact h.setLocation _ _ (fun _ h => nomatch h)
  | spoiled => exact (h.emit _).setLocation _ _ (fun _ h => nomatch h)
  | expanded => exact ((h.emit _).setLoadText _ _).setLocation _ _ (fun _ h => nomatch h)

/-- No transition adds or removes a load. -/
theorem Transition.length_loads {lib : Library} {r r' : Resolution} {task : Task}
    (ht : Transition lib r task r') : r'.loads.length = r.loads.length := by
  cases ht with
  | staged => simp
  | answered =>
    rw [loads_setBranch]
    exact length_loads_release ..
  | passed => exact length_loads_release ..
  | expanded => exact length_loads_setLoadText ..
  | looped | joined => rw [loads_setBranch]
  | asked => rw [loads_setBranch, loads_setKey]
  | _ => rfl

/-- No transition begins a load. -/
theorem Transition.map_load_inlinings {lib : Library} {r r' : Resolution} {task : Task}
    (ht : Transition lib r task r') :
    r'.inlinings.map Inlining.load = r.inlinings.map Inlining.load := by
  cases ht with
  | plain | refused | inlined => exact map_load_setInlining ..
  | staged => exact map_load_setInlining ..
  | looped | joined => exact map_load_setBranch ..
  | asked => exact map_load_setBranch ..
  | answered => rw [map_load_setBranch, inlinings_release]
  | passed => rw [inlinings_setKey, inlinings_release]
  | _ => rfl

theorem Reached.coherent {lib : Library} {loads : List Load} {r : Resolution}
    (h : Reached lib loads r) : Coherent lib r ∧ r.loads.length = loads.length := by
  induction h with
  | start =>
    refine ⟨⟨rfl, rfl, lib.sameOn_disk, le_rfl, ?_, .nil, .nil, ?_, ?_⟩, rfl⟩
    · rintro x ⟨⟩
    · rintro k t ⟨⟩
    · rintro l t pause ⟨⟩
  | submit load _ ih =>
    refine ⟨{ ih.1 with loads := fun x hx => ?_ }, ?_⟩
    · exact (ih.1.loads x hx).trans_le (by simp [addLoad])
    · simp [addLoad, ih.2]
  | begin n _ hn _ ih =>
    refine ⟨{ ih.1 with loads := fun x hx => ?_ }, ih.2⟩
    rcases List.mem_append.mp hx with hx | hx
    · exact ih.1.loads x hx
    · rw [List.mem_singleton.mp hx]
      exact ih.2 ▸ hn
  | poll _ hcan ih =>
    have ht := transition_of_canStep ih.1 hcan
    exact ⟨ht.coherent ih.1, ht.length_loads.trans ih.2⟩
  | elsewhere world _ hsame ih => exact ⟨{ ih.1 with same := hsame }, ih.2⟩

end Resolution

end StyleBatch
