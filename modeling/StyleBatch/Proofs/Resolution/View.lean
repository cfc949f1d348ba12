import StyleBatch.Proofs.Table
import StyleBatch.Resolution

/-!
# Reading a resolution after writing it

`Resolution.key?` and `Resolution.location?` are the tasks in the cache.  Every way of writing
a resolution has one lemma for every way of reading it; most hold by `rfl`.

* `key?_setKey`, `location?_setLocation`, `getElem?_setInlining`: a write is read back.
* `setBranch_cases`: a branch is written where its owner has it, whoever the owner is.
-/

namespace StyleBatch.Resolution

/-- The task of a key. -/
def key? (r : Resolution) (k : Key) : Option KeyTask :=
  Table.get? r.cache.keys k

/-- The task of a location. -/
def location? (r : Resolution) (l : Location) : Option LocationTask :=
  Table.get? r.cache.locations l

theorem keyOutcome?_eq (r : Resolution) (k : Key) :
    keyOutcome? r k = (r.key? k).bind fun t => t.phase.outcome? := rfl

theorem locationOutcome?_eq (r : Resolution) (l : Location) :
    locationOutcome? r l = (r.location? l).bind fun t => t.phase.outcome? := rfl

theorem keyOutcome?_eq_some {r : Resolution} {k : Key} {o : Outcome} :
    keyOutcome? r k = some o ↔ ∃ t, r.key? k = some t ∧ t.phase = .settled o := by
  rw [keyOutcome?_eq, Option.bind_eq_some_iff]
  constructor
  · rintro ⟨t, ht, ho⟩
    refine ⟨t, ht, ?_⟩
    cases hphase : t.phase with
    | settled o' =>
      rw [hphase] at ho
      cases ho
      rfl
    | _ => simp [hphase, KeyPhase.outcome?] at ho
  · rintro ⟨t, ht, hphase⟩
    exact ⟨t, ht, by rw [hphase]; rfl⟩

theorem locationOutcome?_eq_some {r : Resolution} {l : Location} {o : Outcome} :
    locationOutcome? r l = some o ↔ ∃ t, r.location? l = some t ∧ t.phase = .settled o := by
  rw [locationOutcome?_eq, Option.bind_eq_some_iff]
  constructor
  · rintro ⟨t, ht, ho⟩
    refine ⟨t, ht, ?_⟩
    cases hphase : t.phase with
    | settled o' =>
      rw [hphase] at ho
      cases ho
      rfl
    | _ => simp [hphase, LocationPhase.outcome?] at ho
  · rintro ⟨t, ht, hphase⟩
    exact ⟨t, ht, by rw [hphase]; rfl⟩

/-! ## Keys and locations -/

section Cache

variable (r : Resolution) (k : Key) (t : KeyTask) (phase : KeyPhase)

theorem key?_setKey (k' : Key) :
    (setKey r k t phase).key? k' = if k = k' then some { t with phase } else r.key? k' :=
  Table.get?_set ..

@[simp] theorem location?_setKey (l : Location) : (setKey r k t phase).location? l = r.location? l :=
  rfl

@[simp] theorem inlinings_setKey : (setKey r k t phase).inlinings = r.inlinings := rfl

@[simp] theorem loads_setKey : (setKey r k t phase).loads = r.loads := rfl

variable (l : Location) (u : LocationTask) (phase' : LocationPhase)

theorem location?_setLocation (l' : Location) :
    (setLocation r l u phase').location? l' =
      if l = l' then some { u with phase := phase' } else r.location? l' :=
  Table.get?_set ..

@[simp] theorem key?_setLocation (k' : Key) : (setLocation r l u phase').key? k' = r.key? k' := rfl

@[simp] theorem inlinings_setLocation : (setLocation r l u phase').inlinings = r.inlinings := rfl

@[simp] theorem loads_setLocation : (setLocation r l u phase').loads = r.loads := rfl

/-- Setting the phase a key has changes nothing. -/
theorem setKey_eq_self {r : Resolution} {k : Key} {t : KeyTask} (h : r.key? k = some t) :
    setKey r k t t.phase = r := by
  rw [setKey, Cache.setKey, Table.set_eq_self h]

/-- Setting the phase a location has changes nothing. -/
theorem setLocation_eq_self {r : Resolution} {l : Location} {t : LocationTask}
    (h : r.location? l = some t) : setLocation r l t t.phase = r := by
  rw [setLocation, Cache.setLocation, Table.set_eq_self h]

end Cache

theorem keyOutcome?_setKey (r : Resolution) (k : Key) (t : KeyTask) (phase : KeyPhase) (k' : Key) :
    (setKey r k t phase).keyOutcome? k' =
      if k = k' then phase.outcome? else r.keyOutcome? k' := by
  rw [keyOutcome?_eq, key?_setKey]
  split <;> rfl

theorem locationOutcome?_setLocation (r : Resolution) (l : Location) (t : LocationTask)
    (phase : LocationPhase) (l' : Location) :
    (setLocation r l t phase).locationOutcome? l' =
      if l = l' then phase.outcome? else r.locationOutcome? l' := by
  rw [locationOutcome?_eq, location?_setLocation]
  split <;> rfl

/-! ## Inlinings and loads -/

section Loads

variable (r : Resolution) (i : Nat) (phase : InliningPhase)

theorem getElem?_setInlining (i' : Nat) :
    (setInlining r i phase).inlinings[i']? =
      if i = i' then r.inlinings[i']?.map (fun x => { x with phase }) else r.inlinings[i']? := by
  rw [setInlining, List.getElem?_modify]
  split <;> simp

@[simp] theorem map_load_setInlining :
    (setInlining r i phase).inlinings.map Inlining.load = r.inlinings.map Inlining.load := by
  apply List.ext_getElem?
  intro i'
  rw [List.getElem?_map, List.getElem?_map, getElem?_setInlining]
  split <;> simp [Function.comp_def]

@[simp] theorem key?_setInlining (k : Key) : (setInlining r i phase).key? k = r.key? k := rfl

@[simp] theorem location?_setInlining (l : Location) :
    (setInlining r i phase).location? l = r.location? l := rfl

@[simp] theorem loads_setInlining : (setInlining r i phase).loads = r.loads := rfl

variable (n : Nat) (text : Text)

theorem getElem?_setLoadText (n' : Nat) :
    (setLoadText r n text).loads[n']? =
      if n = n' then r.loads[n']?.map (fun l => { l with text }) else r.loads[n']? := by
  rw [setLoadText, List.getElem?_modify]
  split <;> simp

@[simp] theorem length_loads_setLoadText : (setLoadText r n text).loads.length = r.loads.length := by
  rw [setLoadText, List.length_modify]

@[simp] theorem key?_setLoadText (k : Key) : (setLoadText r n text).key? k = r.key? k := rfl

@[simp] theorem location?_setLoadText (l : Location) :
    (setLoadText r n text).location? l = r.location? l := rfl

@[simp] theorem inlinings_setLoadText : (setLoadText r n text).inlinings = r.inlinings := rfl

end Loads

/-! ## Releasing a placeholder -/

/-- A branch or a key that was answered: whoever came second clears the placeholder. -/
def release (r : Resolution) (own : Bool) (o : Outcome) (n : Nat) (k : Key)
    (location : Option Location) : Resolution :=
  match own, o with
  | false, .ok _ => clearPlaceholder r n k location
  | _, _ => r

section Release

variable (r : Resolution) (own : Bool) (o : Outcome) (n : Nat) (k : Key)
  (location : Option Location)

/-- A release touches the text of one load and the log. -/
theorem release_cases :
    release r own o n k location = r ∨
      (own = false ∧ (∃ t, o = .ok t) ∧
        release r own o n k location = clearPlaceholder r n k location) := by
  cases own <;> cases o
  all_goals first | exact Or.inl rfl | exact Or.inr ⟨rfl, ⟨_, rfl⟩, rfl⟩

@[simp] theorem key?_release (k' : Key) : (release r own o n k location).key? k' = r.key? k' := by
  rcases release_cases r own o n k location with h | ⟨-, -, h⟩
  · rw [h]
  · rw [h]
    rfl

@[simp] theorem location?_release (l : Location) :
    (release r own o n k location).location? l = r.location? l := by
  rcases release_cases r own o n k location with h | ⟨-, -, h⟩
  · rw [h]
  · rw [h]
    rfl

@[simp] theorem inlinings_release : (release r own o n k location).inlinings = r.inlinings := by
  rcases release_cases r own o n k location with h | ⟨-, -, h⟩
  · rw [h]
  · rw [h]
    rfl

@[simp] theorem cache_release : (release r own o n k location).cache = r.cache := by
  rcases release_cases r own o n k location with h | ⟨-, -, h⟩
  · rw [h]
  · rw [h]
    rfl

@[simp] theorem keyOutcome?_release (k' : Key) :
    (release r own o n k location).keyOutcome? k' = r.keyOutcome? k' := by
  rw [keyOutcome?_eq, keyOutcome?_eq, key?_release]

@[simp] theorem locationOutcome?_release (l : Location) :
    (release r own o n k location).locationOutcome? l = r.locationOutcome? l := by
  rw [locationOutcome?_eq, locationOutcome?_eq, location?_release]

@[simp] theorem branches_release (owner : Owner) :
    (release r own o n k location).branches owner = r.branches owner := by
  cases owner with
  | inlining => rw [branches, branches, inlinings_release]
  | location => rw [branches, branches, cache_release]

@[simp] theorem fetched_release : (release r own o n k location).fetched = r.fetched := by
  rcases release_cases r own o n k location with h | ⟨-, -, h⟩
  · rw [h]
  · rw [h]
    rfl

@[simp] theorem length_loads_release :
    (release r own o n k location).loads.length = r.loads.length := by
  rcases release_cases r own o n k location with h | ⟨-, -, h⟩
  · rw [h]
  · rw [h]
    exact length_loads_setLoadText ..

end Release

/-! ## Branches -/

theorem branches_inlining {r : Resolution} {i n : Nat} {bs : List Branch}
    (h : r.inlinings[i]? = some ⟨n, .expanding bs⟩) : branches r (.inlining i) = bs := by
  simp [branches, h]

theorem branches_location {r : Resolution} {l : Location} {t : LocationTask} {raw : Text}
    {bs : List Branch} (h : r.location? l = some t) (hphase : t.phase = .expanding raw bs) :
    branches r (.location l) = bs := by
  obtain ⟨k, n, ancestry, phase⟩ := t
  subst hphase
  rw [location?] at h
  simp [branches, h]

/-- Whoever has a branch is expanding. -/
theorem owner_of_branch {r : Resolution} {owner : Owner} {j : Nat} {b : Branch}
    (h : (branches r owner)[j]? = some b) :
    (∃ i n bs, owner = .inlining i ∧ r.inlinings[i]? = some ⟨n, .expanding bs⟩ ∧
        bs[j]? = some b) ∨
      ∃ l t raw bs, owner = .location l ∧ r.location? l = some t ∧
        t.phase = .expanding raw bs ∧ bs[j]? = some b := by
  cases owner with
  | inlining i =>
    rw [branches] at h
    split at h
    · exact Or.inl ⟨i, _, _, rfl, by assumption, h⟩
    · simp at h
  | location l =>
    rw [branches] at h
    split at h
    · exact Or.inr ⟨l, _, _, _, rfl, by assumption, rfl, h⟩
    · simp at h

theorem setBranch_inlining {r : Resolution} {i n : Nat} {bs : List Branch}
    (h : r.inlinings[i]? = some ⟨n, .expanding bs⟩) (j : Nat) (phase : BranchPhase) :
    setBranch r (.inlining i) j phase = setInlining r i (.expanding (withPhase bs j phase)) := by
  simp [setBranch, h]

theorem setBranch_location {r : Resolution} {l : Location} {t : LocationTask} {raw : Text}
    {bs : List Branch} (h : r.location? l = some t) (hphase : t.phase = .expanding raw bs)
    (j : Nat) (phase : BranchPhase) :
    setBranch r (.location l) j phase =
      setLocation r l t (.expanding raw (withPhase bs j phase)) := by
  rw [location?] at h
  simp [setBranch, h, hphase]

section Branch

variable (r : Resolution) (owner : Owner) (j : Nat) (phase : BranchPhase)

/-- Writing a branch leaves all but its owner alone. -/
theorem setBranch_cases :
    setBranch r owner j phase = r ∨
      (∃ i n bs, owner = .inlining i ∧ r.inlinings[i]? = some ⟨n, .expanding bs⟩ ∧
        setBranch r owner j phase = setInlining r i (.expanding (withPhase bs j phase))) ∨
      ∃ l t raw bs, owner = .location l ∧ r.location? l = some t ∧ t.phase = .expanding raw bs ∧
        setBranch r owner j phase = setLocation r l t (.expanding raw (withPhase bs j phase)) := by
  cases owner with
  | inlining i =>
    rw [setBranch]
    split
    · exact Or.inr (Or.inl ⟨i, _, _, rfl, by assumption, rfl⟩)
    · exact Or.inl rfl
  | location l =>
    rw [setBranch]
    split
    · split
      · exact Or.inr (Or.inr ⟨l, _, _, _, rfl, by assumption, by assumption, rfl⟩)
      · exact Or.inl rfl
    · exact Or.inl rfl

@[simp] theorem key?_setBranch (k : Key) : (setBranch r owner j phase).key? k = r.key? k := by
  rcases setBranch_cases r owner j phase with h | ⟨_, _, _, _, _, h⟩ | ⟨_, _, _, _, _, _, _, h⟩ <;>
    rw [h] <;> rfl

@[simp] theorem keyOutcome?_setBranch (k : Key) :
    (setBranch r owner j phase).keyOutcome? k = r.keyOutcome? k := by
  rw [keyOutcome?_eq, key?_setBranch, keyOutcome?_eq]

@[simp] theorem locationOutcome?_setBranch (l : Location) :
    (setBranch r owner j phase).locationOutcome? l = r.locationOutcome? l := by
  rcases setBranch_cases r owner j phase with h | ⟨_, _, _, _, _, h⟩ |
    ⟨l', t, raw, bs, _, hl, ht, h⟩
  · rw [h]
  · rw [h]
    rfl
  · rw [h, locationOutcome?_setLocation]
    split
    · rename_i hll'
      rw [← hll', locationOutcome?_eq, hl, Option.bind_some, ht]
      rfl
    · rfl

@[simp] theorem loads_setBranch : (setBranch r owner j phase).loads = r.loads := by
  rcases setBranch_cases r owner j phase with h | ⟨_, _, _, _, _, h⟩ | ⟨_, _, _, _, _, _, _, h⟩ <;>
    rw [h] <;> rfl

@[simp] theorem map_load_setBranch :
    (setBranch r owner j phase).inlinings.map Inlining.load = r.inlinings.map Inlining.load := by
  rcases setBranch_cases r owner j phase with h | ⟨_, _, _, _, _, h⟩ | ⟨_, _, _, _, _, _, _, h⟩
  · rw [h]
  · rw [h, map_load_setInlining]
  · rw [h]
    rfl

@[simp] theorem fetched_setBranch : (setBranch r owner j phase).fetched = r.fetched := by
  rcases setBranch_cases r owner j phase with h | ⟨_, _, _, _, _, h⟩ | ⟨_, _, _, _, _, _, _, h⟩ <;>
    rw [h] <;> rfl

end Branch

theorem getElem?_withPhase (bs : List Branch) (j : Nat) (phase : BranchPhase) (j' : Nat) :
    (withPhase bs j phase)[j']? =
      if j = j' then bs[j']?.map (fun b => { b with phase }) else bs[j']? := by
  rw [withPhase, List.getElem?_modify]
  split <;> simp

theorem map_target_withPhase (bs : List Branch) (j : Nat) (phase : BranchPhase) :
    (withPhase bs j phase).map Branch.target = bs.map Branch.target := by
  apply List.ext_getElem?
  intro j'
  rw [List.getElem?_map, List.getElem?_map, getElem?_withPhase]
  split <;> simp [Function.comp_def]

end StyleBatch.Resolution
