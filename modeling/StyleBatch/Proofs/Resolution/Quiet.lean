import StyleBatch.Proofs.Resolution.Retry
import StyleBatch.Proofs.Resolution.Traced

/-!
# Nothing runs on

Tasks that loads share are polled on behalf of any of them, but each works on one load only: on that
of whoever started it.  So when a load is settled, nothing is left that could change its text.

* `Transition.loads_eq`: a task leaves all loads but its own as they are.
* `Resumed.spent`: a load that nobody works on and that is not called on again keeps its text.
* `Recorded.quiet`: a load that is settled is quiet.
* `quiet_of_settled`: what is so when a load is settled, with a fault or not.
-/

namespace StyleBatch.Resolution

variable {lib : Library} {loads : List Load} {claims : List Claim} {r r' : Resolution} {n : Nat}
  {load : Load} {task : Task}

/-! ## A task and the other loads -/

theorem loads_setLoadText_of_ne {m : Nat} (hmn : m ≠ n) (text : Text) :
    (r.setLoadText m text).loads[n]? = r.loads[n]? := by
  rw [getElem?_setLoadText, if_neg hmn]

theorem loads_release_of_ne {m : Nat} (hmn : m ≠ n) (own : Bool) (o : Outcome) (k : Key)
    (location : Option Location) : (r.release own o m k location).loads[n]? = r.loads[n]? := by
  rcases release_cases r own o m k location with heq | ⟨-, -, heq⟩
  · rw [heq]
  · rw [heq]
    exact loads_setLoadText_of_ne hmn _

/-- A task leaves all loads but its own as they are. -/
theorem Transition.loads_eq (ht : Transition lib r task r') (h : Sound lib loads r)
    (hother : task.load? r ≠ some n) : r'.loads[n]? = r.loads[n]? := by
  cases ht with
  | @staged i m _ _ hi =>
    have hmn : m ≠ n := by
      rintro rfl
      exact hother (by rw [Task.load?, hi]; rfl)
    rw [loads_setInlining, loads_setLoadText_of_ne hmn]
  | looped | joined => rw [loads_setBranch]
  | asked => rw [loads_setBranch, loads_setKey]
  | @answered owner j b own o hj =>
    have hbn : b.load ≠ n := by
      rintro rfl
      exact hother (h.occurrence_of_branch hj).2.2
    rw [loads_setBranch, loads_release_of_ne hbn]
  | @passed k t l own o hk =>
    have htn : t.load ≠ n := by
      rintro rfl
      exact hother (by rw [Task.load?, hk]; rfl)
    rw [loads_setKey, loads_release_of_ne htn]
  | @expanded l t _ _ _ kind hl =>
    have htn : t.load ≠ n := by
      rintro rfl
      exact hother (by rw [Task.load?, hl]; rfl)
    rw [loads_setLocation]
    exact loads_setLoadText_of_ne htn _
  | _ => rfl

/-! ## A load that is settled -/

theorem inliningOutcome?_eq_some {i : Nat} {o : Outcome} :
    r.inliningOutcome? i = some o ↔ ∃ n, r.inlinings[i]? = some ⟨n, .settled o⟩ := by
  rw [inliningOutcome?, Option.bind_eq_some_iff]
  constructor
  · rintro ⟨⟨n, phase⟩, hi, ho⟩
    cases phase with
    | queued | expanding => cases ho
    | settled =>
      cases ho
      exact ⟨n, hi⟩
  · rintro ⟨n, hi⟩
    exact ⟨_, hi, rfl⟩

/-- What has an outcome does not move. -/
theorem not_canStep_of_outcome? {o : Outcome} (h : task.outcome? r = some o) :
    ¬CanStep r task := by
  suffices hstanding : standing r task = .settled by
    rw [CanStep, Machine.CanStep]
    simp [machine, hstanding]
  -- A source that is settled has no branches any more.
  have hinlining : ∀ {i : Nat}, r.inliningOutcome? i = some o →
      standing r (.source (.inlining i)) = .settled ∧ branches r (.inlining i) = [] := by
    intro i hi
    obtain ⟨n, hi⟩ := inliningOutcome?_eq_some.mp hi
    exact ⟨by simp [standing, hi], by simp [branches, hi]⟩
  have hlocation : ∀ {l : Location}, r.locationOutcome? l = some o →
      standing r (.source (.location l)) = .settled ∧ branches r (.location l) = [] := by
    intro l hl
    obtain ⟨⟨k, n, ancestry, phase⟩, hl, rfl⟩ := locationOutcome?_eq_some.mp hl
    rw [location?] at hl
    exact ⟨by simp [standing, hl], by simp [branches, hl]⟩
  have hbranch : ∀ {owner : Owner} {j : Nat}, branches r owner = [] →
      standing r (.branch owner j) = .settled := by
    intro owner j hbranches
    simp [standing, hbranches]
  cases task with
  | source owner =>
    cases owner with
    | inlining => exact (hinlining h).1
    | location => exact (hlocation h).1
  | branch owner j =>
    cases owner with
    | inlining => exact hbranch (hinlining h).2
    | location => exact hbranch (hlocation h).2
  | key k =>
    obtain ⟨⟨file, n, ancestry, phase⟩, hk, rfl⟩ := keyOutcome?_eq_some.mp h
    rw [key?] at hk
    simp [standing, hk]
  | disk => cases h

/-- What works on a load that is settled has an outcome. -/
theorem Sound.outcome?_of_load? (h : Sound lib loads r) (hsettled : (Way.load n).Settled r)
    (hload : task.load? r = some n) : ∃ o, task.outcome? r = some o := by
  have hinlining : ∀ {i : Nat}, r.inlinings[i]?.map Inlining.load = some n →
      ∃ o, r.inliningOutcome? i = some o := by
    intro i hi
    obtain ⟨x, hx, rfl⟩ := Option.map_eq_some_iff.mp hi
    obtain ⟨o, hphase⟩ := h.settled_of_inlining hx hsettled
    exact ⟨o, by rw [inliningOutcome?, hx, Option.bind_some, hphase]; rfl⟩
  have hlocation : ∀ {l : Location}, (r.location? l).map LocationTask.load = some n →
      ∃ o, r.locationOutcome? l = some o := by
    intro l hl
    obtain ⟨t, ht, rfl⟩ := Option.map_eq_some_iff.mp hl
    obtain ⟨o, hphase⟩ := h.settled_of_location ht hsettled
    exact ⟨o, locationOutcome?_eq_some.mpr ⟨t, ht, hphase⟩⟩
  cases task with
  | source owner =>
    cases owner with
    | inlining => exact hinlining hload
    | location => exact hlocation hload
  | branch owner j =>
    cases owner with
    | inlining => exact hinlining hload
    | location => exact hlocation hload
  | key k =>
    obtain ⟨t, hk, rfl⟩ := Option.map_eq_some_iff.mp hload
    obtain ⟨o, hphase⟩ := h.settled_of_key hk hsettled
    exact ⟨o, keyOutcome?_eq_some.mpr ⟨t, hk, hphase⟩⟩
  | disk => cases hload

/-- No call on the load has come since. -/
def Uncalled (n : Nat) (r r' : Resolution) : Prop :=
  ∀ (i : Nat) (x : Inlining), r.inlinings.length ≤ i → r'.inlinings[i]? = some x → x.load ≠ n

/-- All calls on a load have ended. -/
def Returned (n : Nat) (r : Resolution) : Prop :=
  ∀ (i : Nat) (phase : InliningPhase), r.inlinings[i]? = some ⟨n, phase⟩ → ∃ o, phase = .settled o

theorem Returned.step (h : Returned n r) (task : Task) : Returned n (step task r) := by
  intro i phase hi
  have honward := onward_step r task
  obtain ⟨old, hold⟩ := honward.getElem?_before hi
  obtain ⟨o, rfl⟩ := h i old hold
  have hnew := honward.settled i _ o hold
  rw [hi] at hnew
  cases hnew
  exact ⟨o, rfl⟩

theorem Returned.begin (h : Returned n r) {m : Nat} (hmn : m ≠ n) : Returned n (r.begin m) := by
  intro i phase hi
  rw [Resolution.begin, List.getElem?_append] at hi
  split at hi
  · exact h i phase hi
  · cases List.mem_singleton.mp (List.mem_of_getElem? hi)
    exact absurd rfl hmn

/-- Whatever is done for other loads, a load that nobody works on stays as it is. -/
theorem Resumed.spent (h : Resumed lib r r') (hcoherent : Coherent lib r) (hspent : Spent n load r)
    (hreturned : Returned n r) (huncalled : Uncalled n r r') :
    Coherent lib r' ∧ Spent n load r' ∧ Returned n r' := by
  induction h with
  | refl => exact ⟨hcoherent, hspent, hreturned⟩
  | submit more _ ih =>
    obtain ⟨hcoherent', hspent', hreturned'⟩ := ih huncalled
    exact ⟨hcoherent'.addLoad more, hspent'.addLoad more, hreturned'⟩
  | @begin r' m hresumed hm ih =>
    have huncalled' : Uncalled n r r' := fun i x hi hx =>
      huncalled i x hi (getElem?_append_of_eq_some hx _)
    obtain ⟨hcoherent', hspent', hreturned'⟩ := ih huncalled'
    have hmn : m ≠ n := by
      refine huncalled _ ⟨m, .queued⟩ hresumed.length_inlinings_le ?_
      rw [Resolution.begin, List.getElem?_append_right le_rfl, Nat.sub_self]
      rfl
    exact ⟨hcoherent'.begin hm, hspent'.begin m, hreturned'.begin hmn⟩
  | @poll r' task _ hcan ih =>
    have huncalled' : Uncalled n r r' := by
      intro i x hi hx
      obtain ⟨phase, hx'⟩ := (onward_step r' task).getElem? hx
      exact huncalled i ⟨x.load, phase⟩ hi hx'
    obtain ⟨hcoherent', hspent', hreturned'⟩ := ih huncalled'
    have ht := transition_of_canStep hcoherent' hcan
    refine ⟨ht.coherent hcoherent', hspent'.transition_of_not_staged ?_ ht, hreturned'.step task⟩
    intro i is hi
    obtain ⟨o, ho⟩ := hreturned' i _ hi
    cases ho
  | elsewhere world _ hsame ih =>
    obtain ⟨hcoherent', hspent', hreturned'⟩ := ih huncalled
    exact ⟨{ hcoherent' with same := hsame }, ⟨hspent'.load, hspent'.lost⟩, hreturned'⟩

/-! ## Nothing runs on -/

/-- Nothing of what the load waited for or what works on it is left to be done, and as long as it is
not called on again, whatever comes about leaves it as it is. -/
structure Quiet (lib : Library) (claims : List Claim) (n : Nat) (r : Resolution) : Prop where
  ended : ∀ task, Awaits claims n task ∨ task.load? r = some n →
    (∃ o, task.outcome? r = some o) ∧ ¬CanStep r task
  kept : ∀ r', Resumed lib r r' → Uncalled n r r' → r'.loads[n]? = r.loads[n]?

/-- When a load is settled, with a fault or not, it is quiet. -/
theorem Recorded.quiet (h : Recorded lib loads claims r) {i : Nat} {o : Outcome}
    (hi : r.inlinings[i]? = some ⟨n, .settled o⟩) : Quiet lib claims n r := by
  have hsound := h.reached.sound
  have hsettled : (Way.load n).Settled r := ⟨i, o, hi⟩
  refine ⟨fun task htask => ?_, fun r' hresumed huncalled => ?_⟩
  · have houtcome : ∃ o, task.outcome? r = some o :=
      htask.elim (h.outcome?_of_awaits hsettled) (hsound.outcome?_of_load? hsettled)
    obtain ⟨outcome, ho⟩ := houtcome
    exact ⟨⟨outcome, ho⟩, not_canStep_of_outcome? ho⟩
  · obtain ⟨load, hload, -⟩ := hsound.inlinings i n _ hi
    obtain ⟨left, -, hspent⟩ :=
      h.reached.spent_of_settled (List.getElem?_eq_some_iff.mp hload).1 hsettled
    have hreturned : Returned n r := fun i' phase hi' => hsound.settled_of_inlining hi' hsettled
    obtain ⟨-, hspent', -⟩ := hresumed.spent h.reached.coherent.1 hspent hreturned huncalled
    rw [hspent'.load, hspent.load]

/-- When a load is settled, with a fault or not, it is quiet.  At any time the keys and locations
that were started for a load are those that work on it, and a task leaves all loads but its own as
they are. -/
theorem quiet_of_settled (h : Recorded lib loads claims r) :
    (∀ (i n : Nat) (o : Outcome), r.inlinings[i]? = some ⟨n, .settled o⟩ → Quiet lib claims n r) ∧
    (∀ (n : Nat) (k : Key), Starts claims n (.key k) ↔ (Task.key k).load? r = some n) ∧
    (∀ (n : Nat) (l : Location), Starts claims n (.source (.location l)) ↔
      (Task.source (.location l)).load? r = some n) ∧
    ∀ (n : Nat) (task : Task), CanStep r task → task.load? r ≠ some n →
      (step task r).loads[n]? = r.loads[n]? := by
  refine ⟨fun i n o hi => h.quiet hi, fun n k => ⟨h.load?_of_starts, fun hload => ?_⟩,
    fun n l => ⟨h.load?_of_starts, fun hload => ?_⟩, fun n task hcan hother => ?_⟩
  · obtain ⟨t, hk, rfl⟩ := Option.map_eq_some_iff.mp hload
    exact h.starts_of_key hk
  · obtain ⟨t, hl, rfl⟩ := Option.map_eq_some_iff.mp hload
    exact h.starts_of_location hl
  · exact (transition_of_canStep h.reached.coherent.1 hcan).loads_eq h.reached.sound hother

/-- Two loads that share an import; the second has another one that is not found. -/
def unevenLoads : List Load :=
  [⟨"s/x", "@import \"a\";", []⟩, ⟨"s/y", "@import \"b\";@import \"a\";", []⟩]

/-- The second load ends in a fault, and it is quiet; what it shared was started for the first. -/
theorem quiet_of_settled_uneven :
    ∃ claims, Recorded smallLibrary unevenLoads claims (play smallLibrary unevenLoads 20) ∧
      (play smallLibrary unevenLoads 20).inlinings[1]? =
        some ⟨1, .settled (.error (smallLibrary.loader.notLocated "s/_b.scss"))⟩ ∧
      Quiet smallLibrary claims 1 (play smallLibrary unevenLoads 20) ∧
      Starts claims 0 (.key ⟨"s/|./_a.scss"⟩) ∧
      Starts claims 1 (.key ⟨"s/|./_b.scss"⟩) ∧
      Starts claims 0 (.source (.location ⟨"s/_a.scss"⟩)) := by
  obtain ⟨claims, hclaims⟩ := recorded_play smallLibrary unevenLoads 20
  have hi : (play smallLibrary unevenLoads 20).inlinings[1]? =
      some ⟨1, .settled (.error (smallLibrary.loader.notLocated "s/_b.scss"))⟩ := by decide +kernel
  obtain ⟨hquiet, hkeys, hlocations, -⟩ := quiet_of_settled hclaims
  refine ⟨claims, hclaims, hi, hquiet 1 1 _ hi, (hkeys 0 _).mpr ?_, (hkeys 1 _).mpr ?_,
    (hlocations 0 _).mpr ?_⟩
  · decide +kernel
  · decide +kernel
  · decide +kernel

end StyleBatch.Resolution
