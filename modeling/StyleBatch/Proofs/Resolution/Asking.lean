import StyleBatch.Proofs.Resolution.Claims
import StyleBatch.Proofs.Resolution.Faultless

/-!
# Every directive asks once

Every source that has a task asks for the keys of its directives, each once.  What it has not asked
for yet can be read off the task: all of it before the source is staged, and the imports of the
fresh branches from then on.

* `pendingAsks`: what is not asked for yet.
* `Transition.asks`: a transition claims the key of one directive less, or starts a location whose
  directives are to be asked for.
-/

namespace StyleBatch

open Resolution

namespace Resolution

/-- The directive of a branch, if it has not asked for its key. -/
def Branch.asks (s : Site) (j : Nat) (b : Branch) : Multiset Occurrence :=
  match b.phase with
  | .fresh => {⟨s, j, b.target⟩}
  | _ => 0

/-- What the branches of a site have not asked for. -/
def branchesAsks (s : Site) (bs : List Branch) : Multiset Occurrence :=
  (bs.zipIdx.map fun e => e.1.asks s e.2).sum

variable (lib : Library) (loads : List Load)

def Inlining.asks (x : Inlining) : Multiset Occurrence :=
  match x.phase with
  | .queued => lib.occurrences loads (.load x.load)
  | .expanding bs => branchesAsks (.load x.load) bs
  | .settled _ => 0

def LocationTask.asks (l : Location) (t : LocationTask) : Multiset Occurrence :=
  match t.phase with
  | .expanding _ bs => branchesAsks (.location l) bs
  | .settled _ => 0
  | _ => lib.occurrences loads (.location l)

/-- The directives that have not asked for their keys. -/
def pendingAsks (r : Resolution) : Multiset Occurrence :=
  (r.inlinings.map (Inlining.asks lib loads)).sum +
    (r.cache.locations.map fun e => e.2.asks lib loads e.1).sum

/-- The directives that have claimed their keys. -/
def claimants (claims : List Claim) : Multiset Occurrence :=
  claims.filterMap Claim.occurrence?

/-- The directives of the locations that were free when they were claimed. -/
def openings (claims : List Claim) : Multiset Occurrence :=
  (claims.filterMap Claim.newLocation?).flatMap fun l => lib.occurrences loads (.location l)

/-- The directives of the loads that have begun. -/
def begunAsks (r : Resolution) : Multiset Occurrence :=
  (r.inlinings.map Inlining.load).flatMap fun n => lib.occurrences loads (.load n)

variable {lib loads}

/-! ## The directives of a site -/

theorem occurrences_load {n : Nat} {load : Load} {is : List Import} (hload : loads[n]? = some load)
    (h : lib.imports load.address load.text = .ok is) :
    lib.occurrences loads (.load n) = is.zipIdx.map fun (i, j) => ⟨.load n, j, i⟩ := by
  simp [Library.occurrences, Library.source?, hload, h]

theorem occurrences_load_of_error {n : Nat} {load : Load} {fault : Fault}
    (hload : loads[n]? = some load) (h : lib.imports load.address load.text = .error fault) :
    lib.occurrences loads (.load n) = [] := by
  simp [Library.occurrences, Library.source?, hload, h]

theorem occurrences_location {l : Location} {raw : Text} {is : List Import}
    (hfetch : lib.fetch l = .ok raw) (h : lib.imports l.text raw = .ok is) :
    lib.occurrences loads (.location l) = is.zipIdx.map fun (i, j) => ⟨.location l, j, i⟩ := by
  simp [Library.occurrences, Library.source?, hfetch, h]

theorem occurrences_location_of_error {l : Location} {raw : Text} {fault : Fault}
    (hfetch : lib.fetch l = .ok raw) (h : lib.imports l.text raw = .error fault) :
    lib.occurrences loads (.location l) = [] := by
  simp [Library.occurrences, Library.source?, hfetch, h]

theorem occurrences_location_of_missing {l : Location} {fault : Fault}
    (hfetch : lib.fetch l = .error fault) : lib.occurrences loads (.location l) = [] := by
  simp [Library.occurrences, Library.source?, hfetch]

/-- Loads that are submitted later change nothing. -/
theorem occurrences_append {s : Site} (hs : ∀ n, s = .load n → n < loads.length)
    (more : List Load) : lib.occurrences (loads ++ more) s = lib.occurrences loads s := by
  have hsource : lib.source? (loads ++ more) s = lib.source? loads s := by
    cases s with
    | load n => rw [Library.source?, Library.source?, List.getElem?_append_left (hs n rfl)]
    | location l => rfl
  rw [Library.occurrences, hsource, Library.occurrences]

theorem occurrences_append_location (l : Location) (more : List Load) :
    lib.occurrences (loads ++ more) (.location l) = lib.occurrences loads (.location l) :=
  occurrences_append (by rintro n ⟨⟩) more

theorem openings_addLoad (claims : List Claim) (load : Load) :
    openings lib (loads ++ [load]) claims = openings lib loads claims := by
  rw [openings, openings]
  simp only [occurrences_append_location]

/-! ## One claim after the other -/

theorem claimants_append (claims more : List Claim) :
    claimants (claims ++ more) = claimants claims + claimants more := by
  rw [claimants, List.filterMap_append, ← Multiset.coe_add]
  rfl

theorem openings_append (claims more : List Claim) :
    openings lib loads (claims ++ more) = openings lib loads claims + openings lib loads more := by
  rw [openings, List.filterMap_append, List.flatMap_append, ← Multiset.coe_add]
  rfl

/-! ## The branches of a site -/

theorem branchesAsks_freshBranches (s : Site) (is : List Import) (n : Nat) (ancestry : Ancestry) :
    branchesAsks s (freshBranches is n ancestry) =
      ↑(is.zipIdx.map fun (i, j) => (⟨s, j, i⟩ : Occurrence)) := by
  rw [branchesAsks, freshBranches, List.zipIdx_map, List.map_map]
  generalize is.zipIdx = es
  induction es with
  | nil => rfl
  | cons e es ih =>
    rw [List.map_cons, List.sum_cons, ih]
    rfl

theorem branchesAsks_of_allSettled {s : Site} {bs : List Branch} (h : AllSettled bs) :
    branchesAsks s bs = 0 := by
  refine List.sum_eq_zero fun x hx => ?_
  obtain ⟨⟨b, j⟩, hb, rfl⟩ := List.mem_map.mp hx
  obtain ⟨o, ho⟩ := h b (List.fst_mem_of_mem_zipIdx hb)
  simp [Branch.asks, ho]

theorem branchesAsks_withPhase (s : Site) {bs : List Branch} {j : Nat} {b : Branch}
    (hj : bs[j]? = some b) (phase : BranchPhase) :
    branchesAsks s (withPhase bs j phase) + b.asks s j =
      branchesAsks s bs + { b with phase }.asks s j := by
  have hsum := sum_map_zipIdx_modify (f := fun b => { b with phase })
    (fun e => e.1.asks s e.2) hj 0
  rw [Nat.zero_add] at hsum
  exact hsum

/-! ## What is written -/

section Write

variable (lib loads)
variable {r : Resolution}

theorem pendingAsks_congr {r' : Resolution} (hcache : r'.cache.locations = r.cache.locations)
    (hinlinings : r'.inlinings = r.inlinings) :
    pendingAsks lib loads r' = pendingAsks lib loads r := by
  rw [pendingAsks, pendingAsks, hcache, hinlinings]

theorem begunAsks_addLoad (h : ∀ x ∈ r.inlinings, x.load < loads.length) (load : Load) :
    begunAsks lib (loads ++ [load]) (r.addLoad load) = begunAsks lib loads r := by
  refine congrArg _ (List.flatMap_congr fun n hn => occurrences_append ?_ _)
  obtain ⟨x, hx, rfl⟩ := List.mem_map.mp hn
  rintro n ⟨⟩
  exact h x hx

theorem begunAsks_begin (n : Nat) : begunAsks lib loads (r.begin n) =
    begunAsks lib loads r + (lib.occurrences loads (.load n) : Multiset Occurrence) := by
  rw [begunAsks, begin, List.map_append, List.flatMap_append, ← Multiset.coe_add, begunAsks,
    List.map_singleton, List.flatMap_singleton]

/-- Loads that are submitted later change nothing. -/
theorem pendingAsks_addLoad (h : ∀ x ∈ r.inlinings, x.load < loads.length) (load : Load) :
    pendingAsks lib (loads ++ [load]) (r.addLoad load) = pendingAsks lib loads r := by
  have hinlinings : r.inlinings.map (Inlining.asks lib (loads ++ [load])) =
      r.inlinings.map (Inlining.asks lib loads) := by
    refine List.map_congr_left fun x hx => ?_
    rw [Inlining.asks, Inlining.asks, occurrences_append]
    rintro n ⟨⟩
    exact h x hx
  have hlocations : ∀ l t, LocationTask.asks lib (loads ++ [load]) l t = t.asks lib loads l := by
    intro l t
    rw [LocationTask.asks, LocationTask.asks, occurrences_append_location]
  rw [pendingAsks, addLoad, hinlinings, pendingAsks]
  simp only [hlocations]

theorem pendingAsks_begin (n : Nat) :
    pendingAsks lib loads (r.begin n) =
      pendingAsks lib loads r + (lib.occurrences loads (.load n) : Multiset Occurrence) := by
  rw [pendingAsks, pendingAsks, begin, List.map_append, List.sum_append, List.map_singleton,
    List.sum_singleton, add_right_comm]
  rfl

theorem pendingAsks_setInlining {i n : Nat} {old : InliningPhase}
    (hi : r.inlinings[i]? = some ⟨n, old⟩) (phase : InliningPhase) :
    pendingAsks lib loads (r.setInlining i phase) + Inlining.asks lib loads ⟨n, old⟩ =
      pendingAsks lib loads r + Inlining.asks lib loads ⟨n, phase⟩ := by
  have hsum := sum_map_modify (f := fun x => { x with phase }) (Inlining.asks lib loads) hi
  rw [pendingAsks, pendingAsks]
  simp only [setInlining]
  rw [add_right_comm, hsum]
  abel

theorem pendingAsks_setLocation {l : Location} {t : LocationTask} (hl : r.location? l = some t)
    (phase : LocationPhase) :
    pendingAsks lib loads (r.setLocation l t phase) + t.asks lib loads l =
      pendingAsks lib loads r + { t with phase }.asks lib loads l := by
  have hsum := Table.sum_set (fun l t => t.asks lib loads l) hl { t with phase }
  rw [pendingAsks, pendingAsks]
  simp only [setLocation, Cache.setLocation]
  rw [add_assoc, hsum]
  abel

theorem pendingAsks_setInlining_of_eq {i n : Nat} {old phase : InliningPhase}
    (hi : r.inlinings[i]? = some ⟨n, old⟩)
    (h : Inlining.asks lib loads ⟨n, old⟩ = Inlining.asks lib loads ⟨n, phase⟩) :
    pendingAsks lib loads (r.setInlining i phase) = pendingAsks lib loads r :=
  add_right_cancel ((pendingAsks_setInlining lib loads hi phase).trans (congrArg (_ + ·) h.symm))

theorem pendingAsks_setLocation_of_eq {l : Location} {t : LocationTask}
    (hl : r.location? l = some t) {phase : LocationPhase}
    (h : t.asks lib loads l = { t with phase }.asks lib loads l) :
    pendingAsks lib loads (r.setLocation l t phase) = pendingAsks lib loads r :=
  add_right_cancel ((pendingAsks_setLocation lib loads hl phase).trans (congrArg (_ + ·) h.symm))

theorem pendingAsks_setLocation_of_none {l : Location} (hl : r.location? l = none)
    (t : LocationTask) (phase : LocationPhase) :
    pendingAsks lib loads (r.setLocation l t phase) =
      pendingAsks lib loads r + { t with phase }.asks lib loads l := by
  have hsum := Table.sum_set_new (fun l t => t.asks lib loads l) hl { t with phase }
  rw [pendingAsks, pendingAsks]
  simp only [setLocation, Cache.setLocation]
  rw [hsum]
  abel

/-- A branch works on the load of its source. -/
def Loyal (r : Resolution) : Prop :=
  ∀ (i n : Nat) (bs : List Branch), r.inlinings[i]? = some ⟨n, .expanding bs⟩ → ∀ b ∈ bs, b.load = n

theorem pendingAsks_setBranch (hloyal : Loyal r) {owner : Owner} {j : Nat} {b : Branch}
    (hj : (branches r owner)[j]? = some b) (phase : BranchPhase) :
    pendingAsks lib loads (r.setBranch owner j phase) + b.asks (owner.site b.load) j =
      pendingAsks lib loads r + { b with phase }.asks (owner.site b.load) j := by
  rcases owner_of_branch hj with ⟨i, n, bs, rfl, hi, hb⟩ | ⟨l, t, raw, bs, rfl, hl, ht, hb⟩
  · have hasks := pendingAsks_setInlining lib loads hi (.expanding (withPhase bs j phase))
    rw [setBranch_inlining hi, Owner.site, hloyal i n bs hi b (List.mem_of_getElem? hb)]
    exact add_exchange hasks (branchesAsks_withPhase (.load n) hb phase)
  · have hasks := pendingAsks_setLocation lib loads hl (.expanding raw (withPhase bs j phase))
    rw [LocationTask.asks, ht] at hasks
    rw [setBranch_location hl ht, Owner.site]
    exact add_exchange hasks (branchesAsks_withPhase (.location l) hb phase)

end Write

/-! ## Every transition asks -/

section Transition

variable {r r' : Resolution} {task : Task}

theorem Transition.begunAsks (ht : Transition lib r task r') :
    begunAsks lib loads r' = begunAsks lib loads r := by
  rw [Resolution.begunAsks, ht.map_load_inlinings, Resolution.begunAsks]

/-- A source asks for nothing itself: what it has not asked for is left to its branches. -/
theorem Transition.asks_source {owner : Owner} (ht : Transition lib r (.source owner) r')
    (h : Sound lib loads r) : pendingAsks lib loads r' = pendingAsks lib loads r := by
  cases ht with
  | @plain i n hi hscan =>
    obtain ⟨load, hload, -⟩ := h.inlinings i n _ hi
    have htext : loadText r n = load.text := by
      rw [loadText, h.unstaged n (h.not_staged_of_queued hi), hload]
    rw [htext] at hscan
    have himports : lib.imports load.address load.text = .ok [] := by
      rw [Library.imports, hscan]
      rfl
    refine pendingAsks_setInlining_of_eq lib loads hi ?_
    simp [Inlining.asks, occurrences_load hload himports]
  | refused hi hload himports =>
    refine pendingAsks_setInlining_of_eq lib loads hi ?_
    simp [Inlining.asks, occurrences_load_of_error (h.load_of_queued hi hload) himports]
  | staged hi hload _ himports =>
    refine pendingAsks_setInlining_of_eq lib loads hi ?_
    simp [Inlining.asks, occurrences_load (h.load_of_queued hi hload) himports,
      branchesAsks_freshBranches]
  | inlined hi hbs =>
    refine pendingAsks_setInlining_of_eq lib loads hi ?_
    simp [Inlining.asks, branchesAsks_of_allSettled hbs]
  | requested hl hphase =>
    refine pendingAsks_setLocation_of_eq lib loads hl ?_
    simp [LocationTask.asks, hphase]
  | awaited hl hphase =>
    refine pendingAsks_setLocation_of_eq lib loads hl ?_
    simp [LocationTask.asks, hphase]
  | missing hl hphase hfetch =>
    refine pendingAsks_setLocation_of_eq lib loads hl ?_
    simp [LocationTask.asks, hphase, occurrences_location_of_missing hfetch]
  | spoiled _ hl hphase hfetch himports =>
    refine pendingAsks_setLocation_of_eq lib loads hl ?_
    simp [LocationTask.asks, hphase, occurrences_location_of_error hfetch himports]
  | expanded _ hl hphase hfetch himports =>
    refine pendingAsks_setLocation_of_eq lib loads hl ?_
    simp [LocationTask.asks, hphase, occurrences_location hfetch himports,
      branchesAsks_freshBranches]
  | filled hl hphase hbs =>
    refine pendingAsks_setLocation_of_eq lib loads hl ?_
    simp [LocationTask.asks, hphase, branchesAsks_of_allSettled hbs]

theorem Transition.asks_branch {owner : Owner} {j : Nat}
    (ht : Transition lib r (.branch owner j) r') (h : Sound lib loads r)
    (hf : ∀ n, Faultless lib loads r n) :
    pendingAsks lib loads r' + claimants (claim? r r' (.branch owner j)).toList =
      pendingAsks lib loads r + openings lib loads (claim? r r' (.branch owner j)).toList := by
  have hloyal : Loyal r := by
    intro i n bs hi b hb
    obtain ⟨load, -, -, hbs⟩ := h.inlinings i n _ hi
    exact (hbs b hb).1
  cases ht with
  | @looped owner j b hj _ hmem =>
    exact absurd hmem ((hf b.load).asked (h.branch hj).1).1
  | @asked owner j b pauses hj hphase hnot hk =>
    have hset := pendingAsks_setBranch lib loads
      (r := r.setKey b.target.key (b.keyTask pauses) (.normalizing pauses)) hloyal hj
      (.reserved true)
    rw [Branch.asks, hphase] at hset
    rw [claim?_branch hj hphase hnot]
    exact hset
  | @joined owner j b t hj hphase hnot =>
    have hset := pendingAsks_setBranch lib loads hloyal hj (.reserved false)
    rw [Branch.asks, hphase] at hset
    rw [claim?_branch hj hphase hnot]
    exact hset
  | @answered owner j b own o hj hphase =>
    have hset := pendingAsks_setBranch lib loads (r := r.release own o b.load b.target.key none)
      (by rw [Loyal, inlinings_release]; exact hloyal) (by rw [branches_release]; exact hj)
      (.settled o)
    rw [Branch.asks, hphase, pendingAsks_congr lib loads (r := r) (by rw [cache_release])
      (inlinings_release ..)] at hset
    rw [claim?_branch_eq_none hj (by simp [hphase])]
    exact hset

theorem Transition.asks_key {k : Key} (ht : Transition lib r (.key k) r') :
    pendingAsks lib loads r' + claimants (claim? r r' (.key k)).toList =
      pendingAsks lib loads r + openings lib loads (claim? r r' (.key k)).toList := by
  cases ht with
  | searched _ _ hsearching =>
    rw [claim?_searching hsearching]
    rfl
  | lost | circled =>
    rw [claim?_settled]
    rfl
  | @opened k t l _ _ _ _ _ hl =>
    rw [claim?_reserved, hl, openings]
    refine (add_zero _).trans ((pendingAsks_setLocation_of_none lib loads hl _ _).trans ?_)
    simp [LocationTask.asks, Claim.newLocation?]
  | shared _ _ _ _ _ hl =>
    rw [claim?_reserved, hl]
    rfl
  | passed =>
    rw [claim?_settled]
    exact congrArg (· + 0) (pendingAsks_congr lib loads
      (congrArg Cache.locations (cache_release ..)) (inlinings_release ..))

/-- What the claims ask for, and the directives of the locations that they start. -/
theorem Transition.asks (ht : Transition lib r task r') (h : Sound lib loads r)
    (hf : ∀ n, Faultless lib loads r' n) :
    pendingAsks lib loads r' + claimants (claim? r r' task).toList =
      pendingAsks lib loads r + openings lib loads (claim? r r' task).toList := by
  have hf' : ∀ n, Faultless lib loads r n := fun n => (hf n).of_later ht.later
  cases task with
  | source owner => exact congrArg (· + 0) (ht.asks_source h)
  | branch owner j => exact ht.asks_branch h hf'
  | key k => exact ht.asks_key
  | disk =>
    cases ht
    rfl

end Transition

end Resolution

end StyleBatch
