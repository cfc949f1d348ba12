import StyleBatch.Proofs.Resolution.Standing
import StyleBatch.Proofs.Tangle

/-!
# What has to be settled before

An outcome rests on outcomes that were there before it.  So what waits is not settled before what
it waits for (`Way.Fulfilled.settled`), and what holds of texts once the texts of their imports
have it holds of all of them.

* `Transition.keyOutcome?_cases`, `Transition.locationOutcome?_cases`,
  `Transition.inlining_cases`: where an outcome that was not there comes from.
* `Transition.fulfilled`: what is settled on a way that stood had all it waited for.
-/

namespace StyleBatch

open Resolution

namespace Resolution

variable {lib : Library} {loads : List Load} {r r' : Resolution} {task : Task}

/-- A key is settled by outcomes that are there. -/
theorem Transition.keyOutcome?_cases (ht : Transition lib r task r') (h : Sound lib loads r)
    {k : Key} {o : Outcome} (ho : keyOutcome? r' k = some o) :
    keyOutcome? r k = some o ∨ ∃ t, r.key? k = some t ∧
      (KeyPhase.settled o).Sound lib r k t.file t.ancestry := by
  -- A key is written in a phase that is not settled, or in one that has its reason.
  have hset : ∀ {r₁ : Resolution} {k' : Key} {t : KeyTask} {phase : KeyPhase},
      (∀ k, r₁.keyOutcome? k = r.keyOutcome? k) →
      (setKey r₁ k' t phase).keyOutcome? k = some o →
      (phase = .settled o → ∃ t, r.key? k' = some t ∧
        (KeyPhase.settled o).Sound lib r k' t.file t.ancestry) →
      keyOutcome? r k = some o ∨ ∃ t, r.key? k = some t ∧
        (KeyPhase.settled o).Sound lib r k t.file t.ancestry := by
    intro r₁ k' t phase hsame ho hphase
    rw [keyOutcome?_setKey] at ho
    split at ho
    · rename_i hkk'
      subst hkk'
      refine Or.inr (hphase ?_)
      cases phase with
      | settled o' =>
        cases ho
        rfl
      | _ => cases ho
    · rw [hsame] at ho
      exact Or.inl ho
  cases ht with
  | looped | joined =>
    rw [keyOutcome?_setBranch] at ho
    exact Or.inl ho
  | asked =>
    rw [keyOutcome?_setBranch] at ho
    exact hset (fun _ => rfl) ho nofun
  | answered =>
    rw [keyOutcome?_setBranch, keyOutcome?_release] at ho
    exact Or.inl ho
  | searched hk hsearching hsearching' =>
    refine hset (fun _ => rfl) ho fun hphase => ?_
    exact absurd hphase (hsearching'.ne_settled o)
  | lost hk _ hfind =>
    refine hset (fun _ => rfl) ho ?_
    rintro ⟨⟩
    exact ⟨_, hk, Or.inl ⟨_, hfind, rfl⟩⟩
  | circled hk _ hfind hmem =>
    refine hset (fun _ => rfl) ho ?_
    rintro ⟨⟩
    exact ⟨_, hk, Or.inr ⟨_, hfind, Or.inl ⟨hmem, rfl⟩⟩⟩
  | opened => exact hset (fun _ => rfl) ho nofun
  | shared => exact hset (fun _ => rfl) ho nofun
  | @passed k' t l own o' hk hphase ho' =>
    refine hset (fun _ => keyOutcome?_release ..) ho ?_
    rintro ⟨⟩
    have hsound := (h.keys k' t hk).2.2
    rw [hphase] at hsound
    exact ⟨t, hk, Or.inr ⟨l, hsound.1, Or.inr ⟨hsound.2.1, ho'⟩⟩⟩
  | _ => exact Or.inl ho

/-- A location is settled by outcomes that are there. -/
theorem Transition.locationOutcome?_cases (ht : Transition lib r task r') (h : Sound lib loads r)
    {l : Location} {o : Outcome} (ho : locationOutcome? r' l = some o) :
    locationOutcome? r l = some o ∨ ∃ t, r.location? l = some t ∧
      (LocationPhase.settled o).Sound lib r l t.load (l.text :: t.ancestry) := by
  have hset : ∀ {r₁ : Resolution} {l' : Location} {t : LocationTask} {phase : LocationPhase},
      (∀ l, r₁.locationOutcome? l = r.locationOutcome? l) →
      (setLocation r₁ l' t phase).locationOutcome? l = some o →
      (phase = .settled o → ∃ t, r.location? l' = some t ∧
        (LocationPhase.settled o).Sound lib r l' t.load (l'.text :: t.ancestry)) →
      locationOutcome? r l = some o ∨ ∃ t, r.location? l = some t ∧
        (LocationPhase.settled o).Sound lib r l t.load (l.text :: t.ancestry) := by
    intro r₁ l' t phase hsame ho hphase
    rw [locationOutcome?_setLocation] at ho
    split at ho
    · rename_i hll'
      subst hll'
      refine Or.inr (hphase ?_)
      cases phase with
      | settled o' =>
        cases ho
        rfl
      | _ => cases ho
    · rw [hsame] at ho
      exact Or.inl ho
  cases ht with
  | looped | joined =>
    rw [locationOutcome?_setBranch] at ho
    exact Or.inl ho
  | asked =>
    rw [locationOutcome?_setBranch] at ho
    exact Or.inl ho
  | answered =>
    rw [locationOutcome?_setBranch, locationOutcome?_release] at ho
    exact Or.inl ho
  | passed =>
    have hsame := locationOutcome?_release r _ _ _ _ _ l ▸ ho
    exact Or.inl hsame
  | opened => exact hset (fun _ => rfl) ho nofun
  | requested => exact hset (fun _ => rfl) ho nofun
  | awaited => exact hset (fun _ => rfl) ho nofun
  | expanded => exact hset (fun _ => rfl) ho nofun
  | missing hl _ hfetch =>
    refine hset (fun _ => rfl) ho ?_
    rintro ⟨⟩
    exact ⟨_, hl, Or.inl ⟨_, hfetch, rfl⟩⟩
  | spoiled kind hl _ hfetch himports =>
    refine hset (fun _ => rfl) ho ?_
    rintro ⟨⟩
    exact ⟨_, hl, Or.inr ⟨_, hfetch, Or.inl ⟨_, himports, rfl⟩⟩⟩
  | @filled l' t raw bs hl hphase hbs =>
    refine hset (fun _ => rfl) ho fun hsettled => ?_
    have hsound := (h.locations l' t hl).2
    rw [hphase] at hsound
    injection hsettled with hsettled
    exact ⟨t, hl, Or.inr ⟨raw, hsound.1, hsettled ▸ hsound.2.finished hbs _⟩⟩
  | _ => exact Or.inl ho

/-- A load is settled by outcomes that are there, and with its text. -/
theorem Transition.inlining_cases (ht : Transition lib r task r') (h : Sound lib loads r)
    {i n : Nat} {o : Outcome} (hi : r'.inlinings[i]? = some ⟨n, .settled o⟩) :
    r.inlinings[i]? = some ⟨n, .settled o⟩ ∨
      (∃ load t, loads[n]? = some load ∧
        Finished lib r load.address load.text [load.address] (fun _ => t) o) ∧
      ∀ text, o = .ok text → loadText r' n = text := by
  have hset : ∀ {r₁ : Resolution} {i' n' : Nat} {old phase : InliningPhase},
      r₁.inlinings = r.inlinings → r.inlinings[i']? = some ⟨n', old⟩ →
      (setInlining r₁ i' phase).inlinings[i]? = some ⟨n, .settled o⟩ →
      r.inlinings[i]? = some ⟨n, .settled o⟩ ∨ n' = n ∧ phase = .settled o := by
    intro r₁ i' n' old phase hsame hi' hi
    rw [getElem?_setInlining, hsame] at hi
    split at hi
    · rename_i hii'
      subst hii'
      rw [hi'] at hi
      cases hi
      exact Or.inr ⟨rfl, rfl⟩
    · exact Or.inl hi
  have hbranch : ∀ {r₁ : Resolution} {owner : Owner} {j : Nat} {phase : BranchPhase},
      r₁.inlinings = r.inlinings →
      (setBranch r₁ owner j phase).inlinings[i]? = some ⟨n, .settled o⟩ →
      r.inlinings[i]? = some ⟨n, .settled o⟩ := by
    intro r₁ owner j phase hsame hi
    rcases setBranch_cases r₁ owner j phase with heq | ⟨i', n', bs, _, hi', heq⟩ |
      ⟨_, _, _, _, _, _, _, heq⟩
    · rw [heq, hsame] at hi
      exact hi
    · rw [heq] at hi
      rw [hsame] at hi'
      rcases hset hsame hi' hi with hi | ⟨-, hphase⟩
      · exact hi
      · cases hphase
    · rw [heq, inlinings_setLocation, hsame] at hi
      exact hi
  cases ht with
  | @plain i' n' hi' hscan =>
    refine (hset rfl hi' hi).imp_right ?_
    rintro ⟨rfl, ⟨⟩⟩
    obtain ⟨load, hload, -⟩ := h.inlinings _ _ _ hi'
    have hload' : r.loads[n']? = some load := by
      rw [h.unstaged n' (h.not_staged_of_queued hi')]
      exact hload
    refine ⟨⟨load, loadText r n', hload, .plain ?_⟩, ?_⟩
    · rw [loadText, hload'] at hscan
      exact hscan
    · rintro _ ⟨⟩
      rfl
  | @refused _ _ load fault hi' hload himports =>
    refine (hset rfl hi' hi).imp_right ?_
    rintro ⟨rfl, ⟨⟩⟩
    exact ⟨⟨load, [], h.load_of_queued hi' hload, Or.inl ⟨fault, himports, rfl⟩⟩, by simp⟩
  | staged hi' =>
    rcases hset (inlinings_setLoadText ..) hi' hi with hi | ⟨-, hphase⟩
    · exact Or.inl hi
    · cases hphase
  | @inlined i' n' bs hi' hbs =>
    refine (hset rfl hi' hi).imp_right ?_
    rintro ⟨rfl, hsettled⟩
    obtain ⟨load, hload, hsound⟩ := h.inlinings i' n' _ hi'
    injection hsettled with hsettled
    refine ⟨⟨load, loadText r n', hload, hsettled ▸ hsound.finished hbs _⟩, ?_⟩
    rintro text rfl
    cases htexts : texts bs with
    | error fault =>
      rw [htexts] at hsettled
      cases hsettled
    | ok ts =>
      rw [htexts] at hsettled
      cases hsettled
      rfl
  | looped | joined => exact Or.inl (hbranch rfl hi)
  | asked => exact Or.inl (hbranch (inlinings_setKey ..) hi)
  | answered => exact Or.inl (hbranch (inlinings_release ..) hi)
  | passed =>
    rw [inlinings_setKey, inlinings_release] at hi
    exact Or.inl hi
  | _ => exact Or.inl hi

end Resolution

/-! ## Ways that are settled -/

namespace Way

section

variable (lib : Library) (loads : List Load) (r : Resolution)

/-- The task at the end of a way is settled. -/
def Settled : Way → Prop
  | load n => ∃ (i : Nat) (o : Outcome), r.inlinings[i]? = some ⟨n, .settled o⟩
  | key _ i => ∃ o, keyOutcome? r i.key = some o
  | location _ l => ∃ o, locationOutcome? r l = some o

/-- What the end of a way waits for is there. -/
def Fulfilled : Way → Prop
  | load n => ∃ load o t, loads[n]? = some load ∧
      Resolution.Finished lib r load.address load.text [load.address] (fun _ => t) o
  | key way i => ∃ o, (KeyPhase.settled o).Sound lib r i.key i.file (way.ancestry loads)
  | location way l => ∃ o, (LocationPhase.settled o).Sound lib r l way.number
      (l.text :: way.ancestry loads)

end

variable {lib : Library} {loads : List Load} {r r' : Resolution} {task : Task} {w w' : Way}

/-- A source that ends has an outcome for every import that does not lead back. -/
theorem keyOutcome?_of_finished {address source : Text} {ancestry : Ancestry}
    {finish : List Text → Text} {o : Outcome}
    (h : Resolution.Finished lib r address source ancestry finish o) {is : List Import}
    (himports : lib.imports address source = .ok is) {i : Import} (hi : i ∈ is)
    (hnot : i.key.text ∉ ancestry) : ∃ o, keyOutcome? r i.key = some o := by
  rcases h with ⟨fault, hfault, -⟩ | ⟨is', os, himports', hos, -⟩
  · rw [himports] at hfault
    cases hfault
  · rw [himports] at himports'
    cases himports'
    obtain ⟨o, -, ⟨hmem, -⟩ | ⟨-, ho⟩⟩ := exists_right_of_forall₂ hos hi
    · exact absurd hmem hnot
    · exact ⟨o, ho⟩

/-- What the end of a way waited for is settled before. -/
theorem Fulfilled.settled (h : w.Fulfilled lib loads r) (hwaits : w.Waits lib loads w') :
    w'.Settled r := by
  cases w' with
  | load => exact hwaits.elim
  | key way' i' =>
    obtain ⟨i, hasks, hkey, hnot⟩ := hwaits
    rw [Settled, ← hkey]
    cases w with
    | load n =>
      obtain ⟨load, o, t, hload, hfinished⟩ := h
      obtain ⟨load', is, hload', himports, hi⟩ := hasks
      rw [hload] at hload'
      cases hload'
      have hancestry : (Way.load n).ancestry loads = [load.address] := by
        simp [ancestry, address, hload]
      exact keyOutcome?_of_finished hfinished himports hi (hancestry ▸ hnot)
    | key => exact hasks.elim
    | location way l =>
      obtain ⟨raw, is, hfetch, himports, hi⟩ := hasks
      obtain ⟨o, ⟨fault, hfault, -⟩ | ⟨raw', hfetch', hfinished⟩⟩ := h
      · rw [hfetch] at hfault
        cases hfault
      · rw [hfetch] at hfetch'
        cases hfetch'
        exact keyOutcome?_of_finished hfinished himports hi hnot
  | location way' l =>
    cases w with
    | load => exact hwaits.elim
    | key way i =>
      obtain ⟨hfind, hnot⟩ := hwaits
      obtain ⟨o, ⟨fault, hfault, -⟩ | ⟨l', hfind', hl'⟩⟩ := h
      · rw [hfind] at hfault
        cases hfault
      · rw [hfind] at hfind'
        cases hfind'
        rcases hl' with ⟨hmem, -⟩ | ⟨-, ho⟩
        · exact absurd hmem hnot
        · exact ⟨o, ho⟩
    | location => exact hwaits.elim

/-- What is settled on a way that stands had all it waited for. -/
theorem Stands.fulfilled (hw : w.Stands lib loads r) (h : Sound lib loads r)
    (hsettled : w.Settled r) : w.Fulfilled lib loads r := by
  cases w with
  | load n =>
    obtain ⟨i, o, hi⟩ := hsettled
    obtain ⟨load, hload, t, hfinished⟩ := h.inlinings i n _ hi
    exact ⟨load, o, t, hload, hfinished⟩
  | key way i =>
    obtain ⟨o, ho⟩ := hsettled
    obtain ⟨-, -, t, hk, hfile, -, hancestry⟩ := hw.of_key
    obtain ⟨t', hk', hphase⟩ := keyOutcome?_eq_some.mp ho
    rw [hk] at hk'
    cases hk'
    have hsound := (h.keys _ t hk).2.2
    rw [hphase, hfile, hancestry] at hsound
    exact ⟨o, hsound⟩
  | location way l =>
    obtain ⟨o, ho⟩ := hsettled
    obtain ⟨-, -, t, hl, hload, hancestry⟩ := hw.of_location h
    obtain ⟨t', hl', hphase⟩ := locationOutcome?_eq_some.mp ho
    rw [hl] at hl'
    cases hl'
    have hsound := (h.locations l t hl).2
    rw [hphase, hload, hancestry] at hsound
    exact ⟨o, hsound⟩

end Way

/-- What is settled by a transition had all it waited for before it. -/
theorem Resolution.Transition.fulfilled {lib : Library} {loads : List Load} {r r' : Resolution}
    {task : Task} (ht : Transition lib r task r') (h : Sound lib loads r) {w : Way}
    (hw : w.Stands lib loads r) (hsettled : w.Settled r') : w.Fulfilled lib loads r := by
  cases w with
  | load n =>
    obtain ⟨i, o, hi⟩ := hsettled
    rcases ht.inlining_cases h hi with hi | ⟨⟨load, t, hload, hfinished⟩, -⟩
    · exact hw.fulfilled h ⟨i, o, hi⟩
    · exact ⟨load, o, t, hload, hfinished⟩
  | key way i =>
    obtain ⟨o, ho⟩ := hsettled
    rcases ht.keyOutcome?_cases h ho with ho | ⟨t, hk, hsound⟩
    · exact hw.fulfilled h ⟨o, ho⟩
    · obtain ⟨-, -, t', hk', hfile, -, hancestry⟩ := hw.of_key
      rw [hk] at hk'
      cases hk'
      rw [hfile, hancestry] at hsound
      exact ⟨o, hsound⟩
  | location way l =>
    obtain ⟨o, ho⟩ := hsettled
    rcases ht.locationOutcome?_cases h ho with ho | ⟨t, hl, hsound⟩
    · exact hw.fulfilled h ⟨o, ho⟩
    · obtain ⟨-, -, t', hl', hload, hancestry⟩ := hw.of_location h
      rw [hl] at hl'
      cases hl'
      rw [hload, hancestry] at hsound
      exact ⟨o, hsound⟩

end StyleBatch
