import StyleBatch.Proofs.Resolution.Transition

/-!
# What stays

`Later r r'` says that `r'` has every task of `r`, started for the same load with the same
ancestry, and every outcome of `r`.  All that the tasks of a resolution rest on is of this kind,
so it is enough to show once, in `Transition.later`, that nothing of it is ever lost.
-/

namespace StyleBatch.Resolution

/-- The imports of a load are being inlined, or have been. -/
def Staged (r : Resolution) (n : Nat) : Prop :=
  ∃ (i : Nat) (phase : InliningPhase), r.inlinings[i]? = some ⟨n, phase⟩ ∧ phase ≠ .queued

/-- No task and no outcome is lost. -/
structure Later (r r' : Resolution) : Prop where
  staged : ∀ n, Staged r n → Staged r' n
  key : ∀ k t, r.key? k = some t → ∃ phase, r'.key? k = some { t with phase } ∧
    ∀ o, t.phase = .settled o → phase = .settled o
  location : ∀ l t, r.location? l = some t → ∃ phase, r'.location? l = some { t with phase } ∧
    ∀ o, t.phase = .settled o → phase = .settled o

namespace Later

variable {r r' r'' : Resolution}

theorem refl (r : Resolution) : Later r r :=
  ⟨fun _ h => h, fun _ t h => ⟨t.phase, h, fun _ h => h⟩, fun _ t h => ⟨t.phase, h, fun _ h => h⟩⟩

theorem trans (h : Later r r') (h' : Later r' r'') : Later r r'' where
  staged n hn := h'.staged n (h.staged n hn)
  key k t ht := by
    obtain ⟨phase, ht', hphase⟩ := h.key k t ht
    obtain ⟨phase', ht'', hphase'⟩ := h'.key k _ ht'
    exact ⟨phase', ht'', fun o ho => hphase' o (hphase o ho)⟩
  location l t ht := by
    obtain ⟨phase, ht', hphase⟩ := h.location l t ht
    obtain ⟨phase', ht'', hphase'⟩ := h'.location l _ ht'
    exact ⟨phase', ht'', fun o ho => hphase' o (hphase o ho)⟩

theorem isSome_key (h : Later r r') {k : Key} (hk : (r.key? k).isSome) : (r'.key? k).isSome := by
  obtain ⟨t, ht⟩ := Option.isSome_iff_exists.mp hk
  obtain ⟨phase, ht', -⟩ := h.key k t ht
  rw [ht']
  rfl

theorem isSome_location (h : Later r r') {l : Location} (hl : (r.location? l).isSome) :
    (r'.location? l).isSome := by
  obtain ⟨t, ht⟩ := Option.isSome_iff_exists.mp hl
  obtain ⟨phase, ht', -⟩ := h.location l t ht
  rw [ht']
  rfl

theorem keyOutcome? (h : Later r r') {k : Key} {o : Outcome}
    (ho : r.keyOutcome? k = some o) : r'.keyOutcome? k = some o := by
  obtain ⟨t, ht, hphase⟩ := keyOutcome?_eq_some.mp ho
  obtain ⟨phase, ht', hphase'⟩ := h.key k t ht
  exact keyOutcome?_eq_some.mpr ⟨_, ht', hphase' o hphase⟩

theorem locationOutcome? (h : Later r r') {l : Location} {o : Outcome}
    (ho : r.locationOutcome? l = some o) : r'.locationOutcome? l = some o := by
  obtain ⟨t, ht, hphase⟩ := locationOutcome?_eq_some.mp ho
  obtain ⟨phase, ht', hphase'⟩ := h.location l t ht
  exact locationOutcome?_eq_some.mpr ⟨_, ht', hphase' o hphase⟩

/-- Only the cache and the inlinings count. -/
theorem of_eq (hcache : r'.cache = r.cache) (hinlinings : r'.inlinings = r.inlinings) :
    Later r r' where
  staged n hn := by
    rw [Staged, hinlinings]
    exact hn
  key k t ht := ⟨t.phase, by rw [key?, hcache]; exact ht, fun _ h => h⟩
  location l t ht := ⟨t.phase, by rw [location?, hcache]; exact ht, fun _ h => h⟩

theorem begin (r : Resolution) (n : Nat) : Later r (r.begin n) where
  staged _ hn := by
    obtain ⟨i, phase, hi, hphase⟩ := hn
    exact ⟨i, phase, getElem?_append_of_eq_some hi _, hphase⟩
  key _ t ht := ⟨t.phase, ht, fun _ h => h⟩
  location _ t ht := ⟨t.phase, ht, fun _ h => h⟩

theorem release (r : Resolution) (own : Bool) (o : Outcome) (n : Nat) (k : Key)
    (location : Option Location) : Later r (r.release own o n k location) :=
  of_eq (cache_release ..) (inlinings_release ..)

theorem setInlining (r : Resolution) (i : Nat) {phase : InliningPhase} (hphase : phase ≠ .queued) :
    Later r (r.setInlining i phase) where
  staged n hn := by
    obtain ⟨i', phase', hi', hphase'⟩ := hn
    by_cases h : i = i'
    · subst h
      refine ⟨i, phase, ?_, hphase⟩
      rw [getElem?_setInlining, if_pos rfl, hi']
      rfl
    · refine ⟨i', phase', ?_, hphase'⟩
      rw [getElem?_setInlining, if_neg h, hi']
  key _ t ht := ⟨t.phase, ht, fun _ h => h⟩
  location _ t ht := ⟨t.phase, ht, fun _ h => h⟩

/-- A new key, or a key that is not settled yet, takes any phase. -/
theorem setKey {k : Key} {t : KeyTask} (phase : KeyPhase)
    (hold : ∀ t', r.key? k = some t' → t' = t ∧ ∀ o, t.phase ≠ .settled o) :
    Later r (r.setKey k t phase) where
  staged _ hn := hn
  key k' t' ht' := by
    by_cases h : k = k'
    · subst h
      obtain ⟨rfl, hnot⟩ := hold t' ht'
      refine ⟨phase, ?_, fun o ho => absurd ho (hnot o)⟩
      rw [key?_setKey, if_pos rfl]
    · refine ⟨t'.phase, ?_, fun _ h => h⟩
      rw [key?_setKey, if_neg h]
      exact ht'
  location _ t' ht' := ⟨t'.phase, ht', fun _ h => h⟩

/-- A new location, or a location that is not settled yet, takes any phase. -/
theorem setLocation {l : Location} {t : LocationTask} (phase : LocationPhase)
    (hold : ∀ t', r.location? l = some t' → t' = t ∧ ∀ o, t.phase ≠ .settled o) :
    Later r (r.setLocation l t phase) where
  staged _ hn := hn
  key _ t' ht' := ⟨t'.phase, ht', fun _ h => h⟩
  location l' t' ht' := by
    by_cases h : l = l'
    · subst h
      obtain ⟨rfl, hnot⟩ := hold t' ht'
      refine ⟨phase, ?_, fun o ho => absurd ho (hnot o)⟩
      rw [location?_setLocation, if_pos rfl]
    · refine ⟨t'.phase, ?_, fun _ h => h⟩
      rw [location?_setLocation, if_neg h]
      exact ht'

/-- What is open takes any phase. -/
theorem setKey_of_eq {k : Key} {t : KeyTask} (phase : KeyPhase) (hk : r.key? k = some t)
    (hnot : ∀ o, t.phase ≠ .settled o) : Later r (r.setKey k t phase) := by
  refine setKey phase fun t' ht' => ⟨?_, hnot⟩
  rw [hk] at ht'
  exact (Option.some.inj ht').symm

theorem setLocation_of_eq {l : Location} {t : LocationTask} (phase : LocationPhase)
    (hl : r.location? l = some t) (hnot : ∀ o, t.phase ≠ .settled o) :
    Later r (r.setLocation l t phase) := by
  refine setLocation phase fun t' ht' => ⟨?_, hnot⟩
  rw [hl] at ht'
  exact (Option.some.inj ht').symm

theorem setKey_of_none {k : Key} (t : KeyTask) (phase : KeyPhase) (hk : r.key? k = none) :
    Later r (r.setKey k t phase) :=
  setKey phase fun t' ht' => by rw [hk] at ht'; cases ht'

theorem setLocation_of_none {l : Location} (t : LocationTask) (phase : LocationPhase)
    (hl : r.location? l = none) : Later r (r.setLocation l t phase) :=
  setLocation phase fun t' ht' => by rw [hl] at ht'; cases ht'

theorem setBranch (r : Resolution) (owner : Owner) (j : Nat) (phase : BranchPhase) :
    Later r (r.setBranch owner j phase) := by
  rcases setBranch_cases r owner j phase with heq | ⟨_, _, _, _, _, heq⟩ |
    ⟨_, _, _, _, _, hl, hphase, heq⟩
  · rw [heq]
    exact refl r
  · rw [heq]
    exact setInlining r _ nofun
  · rw [heq]
    refine setLocation_of_eq _ hl fun o ho => ?_
    rw [hphase] at ho
    cases ho

end Later

theorem KeyPhase.Searching.ne_settled {lib : Library} {calls : DiskCalls} {k : Key} {file : Text}
    {phase : KeyPhase} (h : phase.Searching lib calls k file) (o : Outcome) :
    phase ≠ .settled o := by
  rintro rfl
  exact h

/-- No transition loses a task or an outcome. -/
theorem Transition.later {lib : Library} {r r' : Resolution} {task : Task}
    (ht : Transition lib r task r') : Later r r' := by
  cases ht with
  | ended => exact .of_eq rfl rfl
  | plain | refused | inlined => exact .setInlining _ _ nofun
  | @staged _ n load is =>
    have hload : Later r (setLoadText r n (marked load.text is)) := .of_eq rfl rfl
    exact hload.trans (.setInlining _ _ nofun)
  | looped | joined => exact .setBranch _ _ _ _
  | asked _ _ _ _ hk => exact (Later.setKey_of_none _ _ hk).trans (.setBranch _ _ _ _)
  | answered => exact (Later.release ..).trans (.setBranch _ _ _ _)
  | @searched k t phase calls hk hsearching =>
    have hcalls : Later r { r with calls } := .of_eq rfl rfl
    exact hcalls.trans (.setKey_of_eq phase hk hsearching.ne_settled)
  | lost hk hsearching => exact .setKey_of_eq _ hk hsearching.ne_settled
  | circled hk hsearching => exact .setKey_of_eq _ hk hsearching.ne_settled
  | shared hk hsearching => exact .setKey_of_eq _ hk hsearching.ne_settled
  | opened hk hsearching _ _ _ hl =>
    exact (Later.setLocation_of_none _ _ hl).trans (.setKey_of_eq _ hk hsearching.ne_settled)
  | @passed k t l own o hk hphase =>
    refine (Later.release r own o t.load k (some l)).trans (.setKey_of_eq _ ?_ ?_)
    · rw [key?_release]
      exact hk
    · rw [hphase]
      exact nofun
  | @requested l t pause calls hl hphase =>
    have hcalls : Later r { r with calls, fetched := r.fetched ++ [l.text] } := .of_eq rfl rfl
    exact hcalls.trans (.setLocation_of_eq _ hl (by rw [hphase]; exact nofun))
  | awaited hl hphase => exact .setLocation_of_eq _ hl (by rw [hphase]; exact nofun)
  | missing hl hphase => exact .setLocation_of_eq _ hl (by rw [hphase]; exact nofun)
  | spoiled kind hl hphase =>
    have hemit : Later r (emit r kind) := .of_eq rfl rfl
    exact hemit.trans (.setLocation_of_eq _ hl (by rw [hphase]; exact nofun))
  | @expanded l t _ raw is kind hl hphase =>
    have hload : Later r (substitute (emit r kind) t.load t.key (marked raw is)) := .of_eq rfl rfl
    exact hload.trans (.setLocation_of_eq _ hl (by rw [hphase]; exact nofun))
  | filled hl hphase => exact .setLocation_of_eq _ hl (by rw [hphase]; exact nofun)

/-! ## Who starts a task -/

/-- Only a branch starts a key. -/
theorem Transition.key?_cases {lib : Library} {r r' : Resolution} {task : Task}
    (ht : Transition lib r task r') {k : Key} (hk : (r'.key? k).isSome) :
    (r.key? k).isSome ∨ ∃ owner j b pauses, task = .branch owner j ∧
      (branches r owner)[j]? = some b ∧ b.target.key = k ∧ r'.key? k = some (b.keyTask pauses) := by
  have hset : ∀ {r₁ : Resolution} {k' : Key} {t : KeyTask} {phase : KeyPhase},
      (∀ k, r₁.key? k = r.key? k) → (r.key? k').isSome → ((setKey r₁ k' t phase).key? k).isSome →
      (r.key? k).isSome := by
    intro r₁ k' t phase hsame hk' hk
    rw [key?_setKey] at hk
    split at hk
    · rename_i hkk'
      exact hkk' ▸ hk'
    · exact hsame k ▸ hk
  cases ht with
  | looped | joined =>
    rw [key?_setBranch] at hk
    exact Or.inl hk
  | @asked owner j b pauses hj =>
    rw [key?_setBranch, key?_setKey] at hk ⊢
    split at hk
    · rename_i hbk
      exact Or.inr ⟨owner, j, b, pauses, rfl, hj, hbk, by rw [if_pos hbk]; rfl⟩
    · exact Or.inl hk
  | answered =>
    rw [key?_setBranch, key?_release] at hk
    exact Or.inl hk
  | searched hk' => exact Or.inl (hset (fun _ => rfl) (by rw [hk']; rfl) hk)
  | lost hk' => exact Or.inl (hset (fun _ => rfl) (by rw [hk']; rfl) hk)
  | circled hk' => exact Or.inl (hset (fun _ => rfl) (by rw [hk']; rfl) hk)
  | opened hk' => exact Or.inl (hset (fun _ => rfl) (by rw [hk']; rfl) hk)
  | shared hk' => exact Or.inl (hset (fun _ => rfl) (by rw [hk']; rfl) hk)
  | passed hk' => exact Or.inl (hset (fun _ => key?_release ..) (by rw [hk']; rfl) hk)
  | _ => exact Or.inl hk

/-- Only a key starts a location. -/
theorem Transition.location?_cases {lib : Library} {r r' : Resolution} {task : Task}
    (ht : Transition lib r task r') {l : Location} (hl : (r'.location? l).isSome) :
    (r.location? l).isSome ∨ ∃ k t, task = .key k ∧ r.key? k = some t ∧
      lib.find k.base t.file = .ok l ∧ r'.location? l = some (t.locationTask k) := by
  have hset : ∀ {r₁ : Resolution} {l' : Location} {t : LocationTask} {phase : LocationPhase},
      (∀ l, r₁.location? l = r.location? l) → (r.location? l').isSome →
      ((setLocation r₁ l' t phase).location? l).isSome → (r.location? l).isSome := by
    intro r₁ l' t phase hsame hl' hl
    rw [location?_setLocation] at hl
    split at hl
    · rename_i hll'
      exact hll' ▸ hl'
    · exact hsame l ▸ hl
  have hbranch : ∀ {r₁ : Resolution} {owner : Owner} {j : Nat} {phase : BranchPhase},
      (∀ l, r₁.location? l = r.location? l) →
      ((setBranch r₁ owner j phase).location? l).isSome → (r.location? l).isSome := by
    intro r₁ owner j phase hsame hl
    rcases setBranch_cases r₁ owner j phase with heq | ⟨_, _, _, _, _, heq⟩ |
      ⟨l', t, raw, bs, _, hl', _, heq⟩
    · rw [heq] at hl
      exact hsame l ▸ hl
    · rw [heq] at hl
      exact hsame l ▸ hl
    · rw [heq] at hl
      exact hset hsame (by rw [← hsame, hl']; rfl) hl
  cases ht with
  | looped | joined => exact Or.inl (hbranch (fun _ => rfl) hl)
  | asked => exact Or.inl (hbranch (fun l => location?_setKey _ _ _ _ l) hl)
  | answered => exact Or.inl (hbranch (fun _ => location?_release ..) hl)
  | @opened k t l' hk _ _ hfind =>
    rw [location?_setKey, location?_setLocation] at hl ⊢
    split at hl
    · rename_i hll'
      subst hll'
      exact Or.inr ⟨k, t, rfl, hk, hfind, by rw [if_pos rfl]; rfl⟩
    · exact Or.inl hl
  | passed =>
    rw [location?_setKey, location?_release] at hl
    exact Or.inl hl
  | requested hl' => exact Or.inl (hset (fun _ => rfl) (by rw [hl']; rfl) hl)
  | awaited hl' => exact Or.inl (hset (fun _ => rfl) (by rw [hl']; rfl) hl)
  | missing hl' => exact Or.inl (hset (fun _ => rfl) (by rw [hl']; rfl) hl)
  | spoiled _ hl' => exact Or.inl (hset (fun _ => rfl) (by rw [hl']; rfl) hl)
  | expanded _ hl' => exact Or.inl (hset (fun _ => rfl) (by rw [hl']; rfl) hl)
  | filled hl' => exact Or.inl (hset (fun _ => rfl) (by rw [hl']; rfl) hl)
  | _ => exact Or.inl hl

end StyleBatch.Resolution
