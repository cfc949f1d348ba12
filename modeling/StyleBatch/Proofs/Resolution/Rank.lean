import Mathlib.Data.Prod.Lex
import Mathlib.Data.Set.Card
import StyleBatch.Proofs.Acyclic
import StyleBatch.Proofs.Resolution.Standing
import StyleBatch.Proofs.Resolution.Total

/-!
# A measure of what is left to do

`rank` goes down with every transition that changes anything (`Transition.rank_lt`).  Its first
part counts the keys and locations that have no task yet, of which there are finitely many.  Its
second part, `work`, counts what the tasks that are there have before them: what is left of their
pauses, two polls for every branch, and the calls that the disk has not ended.
-/

namespace StyleBatch

namespace Library

variable (lib : Library)

/-- The number of imports in the file at a location. -/
def size (l : Location) : Nat :=
  match lib.fetch l with
  | .ok raw => (Directive.scan raw).length
  | .error _ => 0

end Library

namespace Resolution

def BranchPhase.work : BranchPhase → Nat
  | .fresh => 2
  | .reserved _ => 1
  | .settled _ => 0

/-- What the branches of a source have before them. -/
def branchesWork (bs : List Branch) : Nat :=
  (bs.map fun b => b.phase.work).sum

def LocationPhase.work (lib : Library) (l : Location) : LocationPhase → Nat
  | .queued => lib.loader.fetchingTicks + 4 + 2 * lib.size l
  | .fetching pause => pause.work + 2 + 2 * lib.size l
  | .expanding _ bs => 1 + branchesWork bs
  | .settled _ => 0

def InliningPhase.work (loads : List Load) (n : Nat) : InliningPhase → Nat
  | .queued => 2 + 2 * ((loads[n]?.map fun load => (Directive.scan load.text).length).getD 0)
  | .expanding bs => 1 + branchesWork bs
  | .settled _ => 0

variable (lib : Library) (loads : List Load)

/-- What the tasks that are there have before them. -/
def work (r : Resolution) : Nat :=
  (r.cache.keys.map fun e => e.2.phase.work).sum +
    (r.cache.locations.map fun e => e.2.phase.work lib e.1).sum +
    (r.inlinings.map fun x => x.phase.work loads x.load).sum + r.calls.pending

/-- The keys that may still get a task. -/
def unseenKeys (r : Resolution) : Set Key :=
  {k | lib.Named loads k ∧ r.key? k = none}

/-- The locations that may still get a task. -/
def unseenLocations (r : Resolution) : Set Location :=
  {l | lib.Located l ∧ r.location? l = none}

/-- What goes down: what may still begin, then what is left of what has begun. -/
noncomputable def rank (r : Resolution) : Nat ×ₗ Nat :=
  toLex ((unseenKeys lib loads r).ncard + (unseenLocations lib r).ncard, work lib loads r)

variable {r r' : Resolution}

theorem branchesWork_freshBranches (is : List Import) (n : Nat) (ancestry : Ancestry) :
    branchesWork (freshBranches is n ancestry) = 2 * is.length := by
  induction is with
  | nil => rfl
  | cons i is ih =>
    simp only [branchesWork, freshBranches, List.map_cons, List.sum_cons, List.length_cons] at ih ⊢
    rw [ih, BranchPhase.work]
    omega

/-! ## Work and writing -/

/-- Tasks count for what they have before them. -/
def workWeight : Weight Nat where
  key _ t := t.phase.work
  location l t := t.phase.work lib l
  inlining x := x.phase.work loads x.load
  branch b := b.phase.work
  source := 1
  location_expanding _ _ _ _ _ _ := rfl
  inlining_expanding _ _ := rfl

theorem work_eq : work lib loads r = total (workWeight lib loads) r + r.calls.pending := rfl

theorem work_setKey {k : Key} {t : KeyTask} (hk : r.key? k = some t) (phase : KeyPhase) :
    work lib loads (r.setKey k t phase) + t.phase.work = work lib loads r + phase.work := by
  have htotal : _ + t.phase.work = _ + phase.work := total_setKey (workWeight lib loads) hk phase
  have hcalls : (r.setKey k t phase).calls = r.calls := rfl
  rw [work_eq, work_eq, hcalls]
  omega

theorem work_setLocation {l : Location} {t : LocationTask} (hl : r.location? l = some t)
    (phase : LocationPhase) :
    work lib loads (r.setLocation l t phase) + t.phase.work lib l =
      work lib loads r + phase.work lib l := by
  have htotal : _ + t.phase.work lib l = _ + phase.work lib l :=
    total_setLocation (workWeight lib loads) hl phase
  have hcalls : (r.setLocation l t phase).calls = r.calls := rfl
  rw [work_eq, work_eq, hcalls]
  omega

theorem work_setInlining {i n : Nat} {old : InliningPhase} (hi : r.inlinings[i]? = some ⟨n, old⟩)
    (phase : InliningPhase) :
    work lib loads (r.setInlining i phase) + old.work loads n =
      work lib loads r + phase.work loads n := by
  have htotal : _ + old.work loads n = _ + phase.work loads n :=
    total_setInlining (workWeight lib loads) hi phase
  have hcalls : (r.setInlining i phase).calls = r.calls := rfl
  rw [work_eq, work_eq, hcalls]
  omega

theorem work_setBranch {owner : Owner} {j : Nat} {b : Branch}
    (hj : (branches r owner)[j]? = some b) (phase : BranchPhase) :
    work lib loads (r.setBranch owner j phase) + b.phase.work =
      work lib loads r + phase.work := by
  have htotal : _ + b.phase.work = _ + phase.work := total_setBranch (workWeight lib loads) hj phase
  have hcalls : (r.setBranch owner j phase).calls = r.calls := by
    rcases setBranch_cases r owner j phase with heq | ⟨_, _, _, _, _, heq⟩ |
      ⟨_, _, _, _, _, _, _, heq⟩ <;> rw [heq] <;> rfl
  rw [work_eq, work_eq, hcalls]
  omega

theorem work_release (own : Bool) (o : Outcome) (n : Nat) (k : Key) (location : Option Location) :
    work lib loads (r.release own o n k location) = work lib loads r := by
  rcases release_cases r own o n k location with heq | ⟨-, -, heq⟩
  · rw [heq]
  · rw [heq]
    rfl

theorem work_withCalls (calls : DiskCalls) :
    work lib loads { r with calls } + r.calls.pending = work lib loads r + calls.pending := by
  simp only [work]
  omega

/-! A task that goes on with less before it leaves less work. -/

section Less

variable {lib loads}

theorem work_setKey_lt {k : Key} {t : KeyTask} (hk : r.key? k = some t) {phase : KeyPhase}
    (h : phase.work < t.phase.work) : work lib loads (r.setKey k t phase) < work lib loads r := by
  have hwork := work_setKey lib loads hk phase
  omega

theorem work_setLocation_lt {l : Location} {t : LocationTask} (hl : r.location? l = some t)
    {phase : LocationPhase} (h : phase.work lib l < t.phase.work lib l) :
    work lib loads (r.setLocation l t phase) < work lib loads r := by
  have hwork := work_setLocation lib loads hl phase
  omega

theorem work_setInlining_lt {i n : Nat} {old phase : InliningPhase}
    (hi : r.inlinings[i]? = some ⟨n, old⟩) (h : phase.work loads n < old.work loads n) :
    work lib loads (r.setInlining i phase) < work lib loads r := by
  have hwork := work_setInlining lib loads hi phase
  omega

theorem work_setBranch_lt {owner : Owner} {j : Nat} {b : Branch}
    (hj : (branches r owner)[j]? = some b) {phase : BranchPhase}
    (h : phase.work < b.phase.work) :
    work lib loads (r.setBranch owner j phase) < work lib loads r := by
  have hwork := work_setBranch lib loads hj phase
  omega

end Less

/-! ## Rank and writing -/

theorem Later.unseenKeys_subset (h : Later r r') :
    unseenKeys lib loads r' ⊆ unseenKeys lib loads r := by
  rintro k ⟨hnamed, hk⟩
  refine ⟨hnamed, ?_⟩
  by_contra hsome
  have hsome' := h.isSome_key (Option.isSome_iff_ne_none.mpr hsome)
  rw [hk] at hsome'
  cases hsome'

theorem Later.unseenLocations_subset (h : Later r r') :
    unseenLocations lib r' ⊆ unseenLocations lib r := by
  rintro l ⟨hlocated, hl⟩
  refine ⟨hlocated, ?_⟩
  by_contra hsome
  have hsome' := h.isSome_location (Option.isSome_iff_ne_none.mpr hsome)
  rw [hl] at hsome'
  cases hsome'

variable {lib loads}

theorem finite_unseenKeys : (unseenKeys lib loads r).Finite :=
  (lib.finite_keys loads).subset fun _ h => h.1

theorem finite_unseenLocations : (unseenLocations lib r).Finite :=
  lib.finite_located.subset fun _ h => h.1

/-- Less work, and nothing lost. -/
theorem Later.rank_lt (h : Later r r') (hwork : work lib loads r' < work lib loads r) :
    rank lib loads r' < rank lib loads r := by
  have hkeys := Set.ncard_le_ncard (h.unseenKeys_subset lib loads)
    finite_unseenKeys
  have hlocations := Set.ncard_le_ncard (h.unseenLocations_subset lib)
    finite_unseenLocations
  rw [rank, rank, Prod.Lex.toLex_lt_toLex]
  simp only
  omega

/-- A key more. -/
theorem Later.rank_lt_of_key (h : Later r r') {k : Key} (hnamed : lib.Named loads k)
    (hk : r.key? k = none) (hk' : (r'.key? k).isSome) :
    rank lib loads r' < rank lib loads r := by
  have hkeys : (unseenKeys lib loads r').ncard < (unseenKeys lib loads r).ncard := by
    refine Set.ncard_lt_ncard ⟨h.unseenKeys_subset lib loads, fun hsubset => ?_⟩ finite_unseenKeys
    have hunseen : k ∈ unseenKeys lib loads r' := hsubset ⟨hnamed, hk⟩
    rw [hunseen.2] at hk'
    cases hk'
  have hlocations := Set.ncard_le_ncard (h.unseenLocations_subset lib)
    finite_unseenLocations
  rw [rank, rank, Prod.Lex.toLex_lt_toLex]
  simp only
  omega

/-- A location more. -/
theorem Later.rank_lt_of_location (h : Later r r') {l : Location} (hlocated : lib.Located l)
    (hl : r.location? l = none) (hl' : (r'.location? l).isSome) :
    rank lib loads r' < rank lib loads r := by
  have hlocations : (unseenLocations lib r').ncard < (unseenLocations lib r).ncard := by
    refine Set.ncard_lt_ncard ⟨h.unseenLocations_subset lib, fun hsubset => ?_⟩ finite_unseenLocations
    have hunseen : l ∈ unseenLocations lib r' := hsubset ⟨hlocated, hl⟩
    rw [hunseen.2] at hl'
    cases hl'
  have hkeys := Set.ncard_le_ncard (h.unseenKeys_subset lib loads)
    finite_unseenKeys
  rw [rank, rank, Prod.Lex.toLex_lt_toLex]
  simp only
  omega

/-! ## Every transition goes down -/

theorem Sound.located (h : Sound lib loads r) {l : Location} {t : LocationTask}
    (hl : r.location? l = some t) : lib.Located l := by
  obtain ⟨⟨tk, -, -, -, hfind, -⟩, -⟩ := h.locations l t hl
  exact ⟨_, _, hfind⟩

theorem Sound.named (h : Sound lib loads r) {n : Nat} {ancestry : Ancestry} {i : Import}
    (hasked : Asked lib loads r n ancestry i) : lib.Named loads i.key := by
  obtain ⟨-, address, source, is, horigin, himports, hi⟩ := hasked
  refine ⟨address, source, is, ?_, himports, i, hi, rfl⟩
  cases horigin with
  | load hload => exact Or.inl ⟨_, List.mem_of_getElem? hload, rfl, rfl⟩
  | location hl hfetch => exact Or.inr ⟨_, h.located hl, rfl, hfetch⟩

theorem KeyPhase.Searching.work_pos {calls : DiskCalls} {k : Key} {file : Text}
    {phase : KeyPhase} (h : phase.Searching lib calls k file) : 0 < phase.work := by
  cases phase with
  | normalizing | locating =>
    rw [KeyPhase.work]
    omega
  | reserved | settled => exact h.elim

theorem Transition.rank_lt {task : Task} (ht : Transition lib r task r')
    (hsound : Sound lib loads r) :
    rank lib loads r' < rank lib loads r ∨ r' = r ∧ r.calls.ended < r.calls.begun := by
  have hlater := ht.later
  have hrank : work lib loads r' < work lib loads r →
      rank lib loads r' < rank lib loads r ∨ r' = r ∧ r.calls.ended < r.calls.begun :=
    fun hwork => Or.inl (hlater.rank_lt hwork)
  cases ht with
  | ended hcalls =>
    have hwork : work lib loads r.endCalls + r.calls.pending =
        work lib loads r + r.endCalls.calls.pending := work_withCalls lib loads r.endCalls.calls
    have hended : r.endCalls.calls.pending = 0 := Nat.sub_self _
    have hpending : 0 < r.calls.pending := Nat.sub_pos_of_lt hcalls
    exact hrank (by omega)
  | plain hi | refused hi =>
    refine hrank (work_setInlining_lt hi ?_)
    simp only [InliningPhase.work]
    omega
  | @staged i n load is hi hload _ himports =>
    have hi' : (r.setLoadText n (marked load.text is)).inlinings[i]? = some ⟨n, .queued⟩ := hi
    have hlength := Library.length_imports himports
    refine hrank (work_setInlining_lt hi' ?_)
    simp only [InliningPhase.work, branchesWork_freshBranches, hsound.load_of_queued hi hload,
      Option.map_some, Option.getD_some]
    omega
  | inlined hi =>
    refine hrank (work_setInlining_lt hi ?_)
    simp only [InliningPhase.work]
    omega
  | looped hj hphase | joined hj hphase =>
    refine hrank (work_setBranch_lt hj ?_)
    simp only [hphase, BranchPhase.work]
    omega
  | asked pauses hj _ _ hk =>
    refine Or.inl (hlater.rank_lt_of_key (hsound.named (hsound.branch hj).1) hk ?_)
    rw [key?_setBranch, key?_setKey, if_pos rfl]
    rfl
  | @answered owner j b own o hj hphase =>
    have hj' : (branches (r.release own o b.load b.target.key none) owner)[j]? = some b := by
      rw [branches_release]
      exact hj
    refine hrank (lt_of_lt_of_eq (work_setBranch_lt hj' ?_) (work_release ..))
    simp only [hphase, BranchPhase.work]
    omega
  | @searched k t phase calls hk _ _ _ hless =>
    rcases hless with hless | ⟨rfl, rfl, hcalls⟩
    · have hcalls := work_withCalls lib loads (r := r) calls
      have hk' : ({ r with calls } : Resolution).key? k = some t := hk
      have hwork := work_setKey lib loads hk' phase
      exact hrank (by omega)
    · exact Or.inr ⟨setKey_eq_self hk, hcalls⟩
  | lost hk hsearching | circled hk hsearching =>
    exact hrank (work_setKey_lt hk hsearching.work_pos)
  | opened hk _ _ hfind _ hl =>
    refine Or.inl (hlater.rank_lt_of_location ⟨_, _, hfind⟩ hl ?_)
    rw [location?_setKey, location?_setLocation, if_pos rfl]
    rfl
  | shared hk _ hfour =>
    refine hrank (work_setKey_lt hk ?_)
    rw [KeyPhase.work_reserved]
    omega
  | @passed k t l own o hk hphase =>
    have hk' : (r.release own o t.load k (some l)).key? k = some t := by
      rw [key?_release]
      exact hk
    refine hrank (lt_of_lt_of_eq (work_setKey_lt hk' ?_) (work_release ..))
    rw [hphase, KeyPhase.work_reserved, KeyPhase.work_settled]
    omega
  | @requested l t pause calls hl hphase _ _ hless =>
    have hcalls := work_withCalls lib loads (r := r) calls
    have hl' : ({ r with calls, fetched := r.fetched ++ [l.text] } : Resolution).location? l =
      some t := hl
    have hwork := work_setLocation lib loads hl' (.fetching pause)
    simp only [hphase, LocationPhase.work] at hwork
    have hfetched : work lib loads { r with calls, fetched := r.fetched ++ [l.text] } =
      work lib loads { r with calls } := rfl
    exact hrank (by omega)
  | @awaited l t pause pause' hl hphase _ hless =>
    rcases hless with hless | ⟨rfl, hcalls⟩
    · refine hrank (work_setLocation_lt hl ?_)
      simp only [hphase, LocationPhase.work]
      omega
    · exact Or.inr ⟨hphase ▸ setLocation_eq_self hl, hcalls⟩
  | missing hl hphase =>
    refine hrank (work_setLocation_lt hl ?_)
    simp only [hphase, LocationPhase.work]
    omega
  | @spoiled l t pause raw fault kind hl hphase =>
    have hl' : (r.emit kind).location? l = some t := hl
    refine hrank (work_setLocation_lt hl' ?_)
    simp only [hphase, LocationPhase.work]
    omega
  | @expanded l t pause raw is kind hl hphase hfetch himports =>
    have hl' : (substitute (r.emit kind) t.load t.key (marked raw is)).location? l = some t := hl
    have hlength := Library.length_imports himports
    refine hrank (work_setLocation_lt hl' ?_)
    simp only [hphase, LocationPhase.work, branchesWork_freshBranches, Library.size, hfetch]
    omega
  | filled hl hphase =>
    refine hrank (work_setLocation_lt hl ?_)
    simp only [hphase, LocationPhase.work]
    omega

end Resolution

end StyleBatch
