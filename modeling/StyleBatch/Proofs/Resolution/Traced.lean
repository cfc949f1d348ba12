import StyleBatch.Proofs.Resolution.Asking
import StyleBatch.Proofs.Resolution.Settling

/-!
# What was claimed for a load

The claims of a run lead from a load to all that it waits for: its directives have claimed keys, the
keys locations, and the directives of the locations keys again, whoever works on them.  Where every
entry on such a chain was free, it was started for the load.

* `Made`: what a claim says about the tasks of a state, and `Recorded.made`: every claim of a run
  says so.
* `Awaits`, `Starts`: what a load waits for, and what was started for it.
* `Recorded.outcome?_of_awaits`: when a load is settled, so is all that it waited for.
* `Recorded.load?_of_starts`: what was started for a load works on it.
-/

namespace StyleBatch

open Resolution

/-- Whether nobody had the entry before. -/
def Claim.free : Claim → Bool
  | key _ free => free
  | location _ _ free => free

namespace Resolution

/-! ## Tasks and their loads -/

namespace Task

/-- The load that a task works on; a branch works on that of its source. -/
def load? (r : Resolution) : Task → Option Nat
  | .source (.inlining i) | .branch (.inlining i) _ => r.inlinings[i]?.map Inlining.load
  | .source (.location l) | .branch (.location l) _ => (r.location? l).map LocationTask.load
  | .key k => (r.key? k).map KeyTask.load
  | .disk => none

/-- The outcome of what a task is part of. -/
def outcome? (r : Resolution) : Task → Option Outcome
  | .source (.inlining i) | .branch (.inlining i) _ => inliningOutcome? r i
  | .source (.location l) | .branch (.location l) _ => locationOutcome? r l
  | .key k => keyOutcome? r k
  | .disk => none

end Task

/-- The load that the source of a site works on, and the ancestry of its imports. -/
def context? (loads : List Load) (r : Resolution) : Site → Option (Nat × Ancestry)
  | .load n => loads[n]?.map fun load => (n, [load.address])
  | .location l => (r.location? l).map fun t => (t.load, l.text :: t.ancestry)

/-! ## What a claim says -/

/-- A claim was made by a directive or a key that is not led back by it, and what was free is worked
on for the load of whoever claimed it. -/
def Made (lib : Library) (loads : List Load) (r : Resolution) : Claim → Prop
  | .key o free => o ∈ lib.occurrences loads o.site ∧ ∃ n ancestry t,
      context? loads r o.site = some (n, ancestry) ∧ o.target.key.text ∉ ancestry ∧
      r.key? o.target.key = some t ∧ (free = true → t.load = n ∧ t.ancestry = ancestry)
  | .location k l free => ∃ t u, r.key? k = some t ∧ lib.find k.base t.file = .ok l ∧
      l.text ∉ t.ancestry ∧ r.location? l = some u ∧
      (free = true → u.load = t.load ∧ u.ancestry = k.text :: t.ancestry)

/-- The tasks that a load waits for: the keys of its directives, the locations that these have
claimed, the keys of the directives there, and so on. -/
inductive Awaits (claims : List Claim) (n : Nat) : Task → Prop
  | key {o : Occurrence} {free : Bool} : .key o free ∈ claims → o.site = .load n →
      Awaits claims n (.key o.target.key)
  | location {k : Key} {l : Location} {free : Bool} : Awaits claims n (.key k) →
      .location k l free ∈ claims → Awaits claims n (.source (.location l))
  | nested {l : Location} {o : Occurrence} {free : Bool} : Awaits claims n (.source (.location l)) →
      .key o free ∈ claims → o.site = .location l → Awaits claims n (.key o.target.key)

/-- The tasks that were started for a load: those that it waits for because somebody on its way to
them was the first to claim them. -/
def Starts (claims : List Claim) : Nat → Task → Prop :=
  Awaits (claims.filter Claim.free)

variable {lib : Library} {loads : List Load} {claims : List Claim} {r r' : Resolution} {n : Nat}
  {task : Task}

theorem mem_imports_of_mem_occurrences {o : Occurrence}
    (h : o ∈ lib.occurrences loads o.site) : ∃ address source is,
      lib.source? loads o.site = some (address, source) ∧
        lib.imports address source = .ok is ∧ o.target ∈ is := by
  rw [Library.occurrences] at h
  split at h
  · cases h
  · rename_i address source hsource
    split at h
    · cases h
    · rename_i is himports
      obtain ⟨⟨i, j⟩, hij, ho⟩ := List.mem_map.mp h
      refine ⟨address, source, is, hsource, himports, ?_⟩
      rw [← ho]
      exact List.fst_mem_of_mem_zipIdx hij

/-! ## Claims go on saying it -/

theorem context?_later {s : Site} {x : Nat × Ancestry} (h : context? loads r s = some x)
    (hlater : Later r r') : context? loads r' s = some x := by
  cases s with
  | load => exact h
  | location l =>
    obtain ⟨t, hl, rfl⟩ := Option.map_eq_some_iff.mp h
    obtain ⟨phase, hl', -⟩ := hlater.location l t hl
    rw [context?, hl']
    rfl

theorem Made.later {claim : Claim} (h : Made lib loads r claim) (hlater : Later r r') :
    Made lib loads r' claim := by
  cases claim with
  | key o free =>
    obtain ⟨ho, n, ancestry, t, hcontext, hnot, hk, hload⟩ := h
    obtain ⟨phase, hk', -⟩ := hlater.key _ t hk
    exact ⟨ho, n, ancestry, _, context?_later hcontext hlater, hnot, hk', hload⟩
  | location k l free =>
    obtain ⟨t, u, hk, hfind, hnot, hl, hload⟩ := h
    obtain ⟨phase, hk', -⟩ := hlater.key k t hk
    obtain ⟨phase', hl', -⟩ := hlater.location l u hl
    exact ⟨_, _, hk', hfind, hnot, hl', hload⟩

theorem Made.addLoad {claim : Claim} (h : Made lib loads r claim) (load : Load) :
    Made lib (loads ++ [load]) (r.addLoad load) claim := by
  cases claim with
  | location => exact h
  | key o free =>
    obtain ⟨ho, n, ancestry, t, hcontext, hrest⟩ := h
    have hsite : ∀ m, o.site = .load m → m < loads.length := by
      intro m hm
      rw [hm] at hcontext
      obtain ⟨more, hmore, -⟩ := Option.map_eq_some_iff.mp hcontext
      exact (List.getElem?_eq_some_iff.mp hmore).1
    refine ⟨by rwa [occurrences_append hsite], n, ancestry, t, ?_, hrest⟩
    cases hs : o.site with
    | load m =>
      rw [hs] at hcontext
      rw [context?, List.getElem?_append_left (hsite m hs)]
      exact hcontext
    | location l =>
      rw [hs] at hcontext
      exact hcontext

/-- A branch is a directive of its source, and its own load and ancestry are those of the source. -/
theorem Sound.occurrence_of_branch (h : Sound lib loads r) {owner : Owner} {j : Nat} {b : Branch}
    (hj : (branches r owner)[j]? = some b) :
    (⟨owner.site b.load, j, b.target⟩ : Occurrence) ∈ lib.occurrences loads (owner.site b.load) ∧
      context? loads r (owner.site b.load) = some (b.load, b.ancestry) ∧
      (Task.branch owner j).load? r = some b.load := by
  have htarget : ∀ {bs : List Branch}, bs[j]? = some b →
      (b.target, j) ∈ (bs.map Branch.target).zipIdx := by
    intro bs hb
    rw [List.mem_zipIdx_iff_getElem?, List.getElem?_map, hb]
    rfl
  rcases owner_of_branch hj with ⟨i, n, bs, rfl, hi, hb⟩ | ⟨l, t, raw, bs, rfl, hl, hphase, hb⟩
  · obtain ⟨load, hload, himports, hbs⟩ := h.inlinings i n _ hi
    obtain ⟨rfl, hancestry, -⟩ := hbs b (List.mem_of_getElem? hb)
    refine ⟨?_, ?_, ?_⟩
    · rw [Owner.site, occurrences_load hload himports]
      exact List.mem_map.mpr ⟨_, htarget hb, rfl⟩
    · rw [Owner.site, context?, hload, hancestry]
      rfl
    · rw [Task.load?, hi]
      rfl
  · have hsound := (h.locations l t hl).2
    rw [hphase] at hsound
    obtain ⟨hfetch, himports, hbs⟩ := hsound
    obtain ⟨hload, hancestry, -⟩ := hbs b (List.mem_of_getElem? hb)
    refine ⟨?_, ?_, ?_⟩
    · rw [Owner.site, occurrences_location hfetch himports]
      exact List.mem_map.mpr ⟨_, htarget hb, rfl⟩
    · rw [Owner.site, context?, hl, hload, hancestry]
      rfl
    · rw [Task.load?, hl, hload]
      rfl

/-- What a transition claims is there after it. -/
theorem Transition.made (ht : Transition lib r task r') (h : Sound lib loads r) {claim : Claim}
    (hclaim : claim? r r' task = some claim) : Made lib loads r' claim := by
  have hlater := ht.later
  have hkey : ∀ {owner : Owner} {j : Nat} {b : Branch} {t : KeyTask},
      (branches r owner)[j]? = some b → b.phase = .fresh → b.target.key.text ∉ b.ancestry →
      claim? r r' (.branch owner j) = some claim → r'.key? b.target.key = some t →
      ((r.key? b.target.key).isNone = true → t.load = b.load ∧ t.ancestry = b.ancestry) →
      Made lib loads r' claim := by
    intro owner j b t hj hphase hnot hclaim hk hload
    rw [claim?_branch hj hphase hnot] at hclaim
    cases hclaim
    obtain ⟨hoccurrence, hcontext, -⟩ := h.occurrence_of_branch hj
    exact ⟨hoccurrence, _, _, t, context?_later hcontext hlater, hnot, hk, hload⟩
  cases ht with
  | looped hj _ hmem =>
    rw [claim?_branch_eq_none hj fun _ => hmem] at hclaim
    cases hclaim
  | @asked owner j b pauses hj hphase hnot hk =>
    refine hkey hj hphase hnot hclaim (t := b.keyTask pauses) ?_ fun _ => ⟨rfl, rfl⟩
    rw [key?_setBranch, key?_setKey, if_pos rfl]
    rfl
  | @joined owner j b t hj hphase hnot hk =>
    refine hkey hj hphase hnot hclaim (t := t) ?_ ?_
    · rw [key?_setBranch, hk]
    · rw [hk]
      exact nofun
  | answered hj hphase =>
    rw [claim?_branch_eq_none hj (by simp [hphase])] at hclaim
    cases hclaim
  | searched _ _ hsearching =>
    rw [claim?_searching hsearching] at hclaim
    cases hclaim
  | lost | circled | passed =>
    rw [claim?_settled] at hclaim
    cases hclaim
  | @opened k t l hk _ _ hfind hnot hl =>
    rw [claim?_reserved, hl] at hclaim
    cases hclaim
    refine ⟨{ t with phase := .reserved l true }, t.locationTask k, ?_, hfind, hnot, ?_,
      fun _ => ?_⟩
    · rw [key?_setKey, if_pos rfl]
    · rw [location?_setKey, location?_setLocation, if_pos rfl]
      rfl
    · exact ⟨rfl, rfl⟩
  | @shared k t l u hk _ _ hfind hnot hl =>
    rw [claim?_reserved, hl] at hclaim
    cases hclaim
    refine ⟨{ t with phase := .reserved l false }, u, ?_, hfind, hnot, ?_, nofun⟩
    · rw [key?_setKey, if_pos rfl]
    · rw [location?_setKey, hl]
  | _ => cases hclaim

/-- Every claim of a run says what is so. -/
theorem Recorded.made (h : Recorded lib loads claims r) :
    ∀ claim ∈ claims, Made lib loads r claim := by
  induction h with
  | start => exact List.forall_mem_nil _
  | submit load _ ih => exact fun claim hclaim => (ih claim hclaim).addLoad load
  | begin n _ _ _ ih => exact fun claim hclaim => (ih claim hclaim).later (.begin _ n)
  | poll hr hcan ih =>
    have ht := transition_of_canStep hr.reached.coherent.1 hcan
    intro claim hclaim
    rcases List.mem_append.mp hclaim with hold | hnew
    · exact (ih claim hold).later ht.later
    · exact ht.made hr.reached.sound (Option.mem_toList.mp hnew)
  | elsewhere world _ _ _ ih => exact fun claim hclaim => (ih claim hclaim).later (.of_eq rfl rfl)

/-! ## What a load waits for -/

/-- When a load is settled, all that it waited for has an outcome. -/
theorem Recorded.outcome?_of_awaits (h : Recorded lib loads claims r)
    (hsettled : (Way.load n).Settled r) (hawaits : Awaits claims n task) :
    ∃ o, task.outcome? r = some o := by
  have hsound := h.reached.sound
  induction hawaits with
  | @key o free hclaim hsite =>
    obtain ⟨hoccurrence, n', ancestry, t, hcontext, hnot, -⟩ := h.made _ hclaim
    obtain ⟨address, source, is, hsource, himports, hi⟩ :=
      mem_imports_of_mem_occurrences hoccurrence
    obtain ⟨i, outcome, hinlining⟩ := hsettled
    obtain ⟨load, hload, text, hfinished⟩ := hsound.inlinings i n _ hinlining
    rw [hsite, context?, hload] at hcontext
    rw [hsite, Library.source?, hload] at hsource
    cases hcontext
    cases hsource
    exact Way.keyOutcome?_of_finished hfinished himports hi hnot
  | @location k l free _ hclaim ih =>
    obtain ⟨outcome, houtcome⟩ := ih
    obtain ⟨t, hk, hphase⟩ := keyOutcome?_eq_some.mp houtcome
    obtain ⟨t', u, hk', hfind, hnot, -⟩ := h.made _ hclaim
    rw [hk] at hk'
    cases hk'
    have hreason := (hsound.keys k t hk).2.2
    rw [hphase] at hreason
    rcases hreason with ⟨fault, hfault, -⟩ | ⟨l', hfind', ⟨hmem, -⟩ | ⟨-, hl⟩⟩
    · rw [hfind] at hfault
      cases hfault
    · rw [hfind] at hfind'
      cases hfind'
      exact absurd hmem hnot
    · rw [hfind] at hfind'
      cases hfind'
      exact ⟨outcome, hl⟩
  | @nested l o free _ hclaim hsite ih =>
    obtain ⟨outcome, houtcome⟩ := ih
    obtain ⟨t, hl, hphase⟩ := locationOutcome?_eq_some.mp houtcome
    obtain ⟨hoccurrence, n', ancestry, tk, hcontext, hnot, -⟩ := h.made _ hclaim
    obtain ⟨address, source, is, hsource, himports, hi⟩ :=
      mem_imports_of_mem_occurrences hoccurrence
    rw [hsite, context?, hl] at hcontext
    cases hcontext
    have hreason := (hsound.locations l t hl).2
    rw [hphase] at hreason
    rw [hsite, Library.source?] at hsource
    rcases hreason with ⟨fault, hfault, -⟩ | ⟨raw, hfetch, hfinished⟩
    · rw [hfault] at hsource
      cases hsource
    · rw [hfetch] at hsource
      cases hsource
      exact Way.keyOutcome?_of_finished hfinished himports hi hnot

/-! ## What was started for a load -/

/-- What was started for a load works on it. -/
theorem Recorded.load?_of_starts (h : Recorded lib loads claims r)
    (hstarts : Starts claims n task) : task.load? r = some n := by
  have hmade : ∀ claim ∈ claims.filter Claim.free, Made lib loads r claim ∧ claim.free = true := by
    intro claim hclaim
    obtain ⟨hmem, hfree⟩ := List.mem_filter.mp hclaim
    exact ⟨h.made claim hmem, hfree⟩
  induction hstarts with
  | @key o free hclaim hsite =>
    obtain ⟨⟨-, m, ancestry, t, hcontext, -, hk, hload⟩, hfree⟩ := hmade _ hclaim
    rw [hsite] at hcontext
    obtain ⟨load, -, heq⟩ := Option.map_eq_some_iff.mp hcontext
    cases heq
    rw [Task.load?, hk, Option.map_some, (hload hfree).1]
  | @location k l free _ hclaim ih =>
    obtain ⟨⟨t, u, hk, -, -, hl, hload⟩, hfree⟩ := hmade _ hclaim
    rw [Task.load?, hk] at ih
    rw [Task.load?, hl, ← ih, Option.map_some, Option.map_some, (hload hfree).1]
  | @nested l o free _ hclaim hsite ih =>
    obtain ⟨⟨-, m, ancestry, t, hcontext, -, hk, hload⟩, hfree⟩ := hmade _ hclaim
    rw [hsite] at hcontext
    obtain ⟨u, hl, heq⟩ := Option.map_eq_some_iff.mp hcontext
    cases heq
    rw [Task.load?, hl] at ih
    rw [Task.load?, hk, ← ih, Option.map_some, Option.map_some, (hload hfree).1]

/-- A key that is there was free when a directive claimed it. -/
theorem Recorded.exists_key_claim (h : Recorded lib loads claims r) {k : Key} {t : KeyTask}
    (hk : r.key? k = some t) : ∃ o, o.target.key = k ∧ .key o true ∈ claims := by
  have hmem : k ∈ claims.filterMap Claim.newKey? := by
    rw [h.keys, Table.mem_keys_iff]
    exact Option.isSome_iff_exists.mpr ⟨t, hk⟩
  obtain ⟨claim, hclaim, hnew⟩ := List.mem_filterMap.mp hmem
  rcases claim with ⟨o, free⟩ | ⟨k', l, free⟩
  · cases free <;> cases hnew
    exact ⟨o, rfl, hclaim⟩
  · cases hnew

theorem Recorded.exists_location_claim (h : Recorded lib loads claims r) {l : Location}
    {t : LocationTask} (hl : r.location? l = some t) : ∃ k, .location k l true ∈ claims := by
  have hmem : l ∈ claims.filterMap Claim.newLocation? := by
    rw [h.locations, Table.mem_keys_iff]
    exact Option.isSome_iff_exists.mpr ⟨t, hl⟩
  obtain ⟨claim, hclaim, hnew⟩ := List.mem_filterMap.mp hmem
  rcases claim with ⟨o, free⟩ | ⟨k, l', free⟩
  · cases free <;> cases hnew
  · cases free <;> cases hnew
    exact ⟨k, hclaim⟩

/-- A key was started for the load that it works on. -/
theorem Recorded.starts_of_key (h : Recorded lib loads claims r) {k : Key} {t : KeyTask}
    (hk : r.key? k = some t) : Starts claims t.load (.key k) := by
  -- The ancestry of the key by which the claiming directive was found is shorter.
  induction hn : t.ancestry.length using Nat.strong_induction_on generalizing k t with
  | h n ih =>
    obtain ⟨o, rfl, hclaim⟩ := h.exists_key_claim hk
    have hfree : .key o true ∈ claims.filter Claim.free := List.mem_filter.mpr ⟨hclaim, rfl⟩
    obtain ⟨-, m, ancestry, t', hcontext, -, hk', hstarted⟩ := h.made _ hclaim
    rw [hk] at hk'
    cases hk'
    obtain ⟨hload, hancestry⟩ := hstarted rfl
    cases hs : o.site with
    | load m' =>
      rw [hs] at hcontext
      obtain ⟨load, -, heq⟩ := Option.map_eq_some_iff.mp hcontext
      cases heq
      exact hload ▸ .key hfree hs
    | location l =>
      rw [hs] at hcontext
      obtain ⟨u, hl, heq⟩ := Option.map_eq_some_iff.mp hcontext
      cases heq
      obtain ⟨k, hclaim'⟩ := h.exists_location_claim hl
      obtain ⟨tk, u', hk', -, -, hl', hstarted'⟩ := h.made _ hclaim'
      rw [hl] at hl'
      cases hl'
      obtain ⟨hload', hancestry'⟩ := hstarted' rfl
      have hlt : tk.ancestry.length < n := by
        rw [← hn, hancestry, hancestry', List.length_cons, List.length_cons]
        omega
      have hlocation : Starts claims tk.load (.source (.location l)) :=
        (ih _ hlt hk' rfl).location (List.mem_filter.mpr ⟨hclaim', rfl⟩)
      rw [hload, hload']
      exact hlocation.nested hfree hs

/-- A location was started for the load that it works on. -/
theorem Recorded.starts_of_location (h : Recorded lib loads claims r) {l : Location}
    {t : LocationTask} (hl : r.location? l = some t) :
    Starts claims t.load (.source (.location l)) := by
  obtain ⟨k, hclaim⟩ := h.exists_location_claim hl
  obtain ⟨tk, u, hk, -, -, hl', hstarted⟩ := h.made _ hclaim
  rw [hl] at hl'
  cases hl'
  rw [(hstarted rfl).1]
  exact (h.starts_of_key hk).location (List.mem_filter.mpr ⟨hclaim, rfl⟩)

end Resolution

end StyleBatch
