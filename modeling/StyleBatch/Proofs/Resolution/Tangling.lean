import Mathlib.Data.Finset.Card
import StyleBatch.Proofs.Resolution.Hang

/-!
# Every tangle comes about

Given a tangle, its ways can be made to stand one after the other, from the loads down: only
tasks on it are polled, so nothing else gets into the cache, and what is on it is never settled,
because what it waits for is not (`Kept.unsettled_of_transition`).

* `Kept.exists_stands`: some polls make a way stand.
* `Tangle.exists_rest`: so there is a run that comes to rest with every load of the tangle
  waiting.
-/

namespace StyleBatch.Resolution

variable {lib : Library} {loads : List Load} {r r' : Resolution} {ways : Finset Way}

/-- There are no tasks but those on the ways of a tangle, and none of them is settled. -/
structure Kept (lib : Library) (loads : List Load) (ways : Finset Way) (r : Resolution) : Prop where
  reached : Reached lib loads r
  key : ∀ k, (r.key? k).isSome → ∃ w ∈ ways, w.Stands lib loads r ∧ w.node = .key k
  location : ∀ l, (r.location? l).isSome → ∃ w ∈ ways, w.Stands lib loads r ∧ w.node = .location l
  unsettled : ∀ w ∈ ways, ¬w.Settled r

namespace Kept

/-- What has a task stands. -/
theorem stands_of_key (h : Kept lib loads ways r) (htangle : Tangle lib loads ways) {w : Way}
    {i : Import} (hw : Way.key w i ∈ ways) (hk : (r.key? i.key).isSome) :
    (Way.key w i).Stands lib loads r := by
  obtain ⟨w', hw', hstands, hnode⟩ := h.key _ hk
  exact htangle.eq_of_node w' hw' _ hw hnode ▸ hstands

theorem stands_of_location (h : Kept lib loads ways r) (htangle : Tangle lib loads ways) {w : Way}
    {l : Location} (hw : Way.location w l ∈ ways) (hl : (r.location? l).isSome) :
    (Way.location w l).Stands lib loads r := by
  obtain ⟨w', hw', hstands, hnode⟩ := h.location _ hl
  exact htangle.eq_of_node w' hw' _ hw hnode ▸ hstands

/-- What is on a tangle is not settled, since what it waits for is not. -/
theorem unsettled_of_transition (h : Kept lib loads ways r) (htangle : Tangle lib loads ways)
    {task : Task} (ht : Transition lib r task r') : ∀ w ∈ ways, ¬w.Settled r' := by
  intro w hw hsettled
  have hsound := h.reached.sound
  have hfulfilled : w.Fulfilled lib loads r := by
    cases w with
    | load n =>
      obtain ⟨i, o, hi⟩ := hsettled
      rcases ht.inlining_cases hsound hi with hi | ⟨⟨load, t, hload, hfinished⟩, -⟩
      · exact absurd ⟨i, o, hi⟩ (h.unsettled _ hw)
      · exact ⟨load, o, t, hload, hfinished⟩
    | key way i =>
      obtain ⟨o, ho⟩ := hsettled
      rcases ht.keyOutcome?_cases hsound ho with ho' | ⟨t, hk, -⟩
      · exact absurd ⟨o, ho'⟩ (h.unsettled _ hw)
      · exact ht.fulfilled hsound (h.stands_of_key htangle hw (by rw [hk]; rfl)) ⟨o, ho⟩
    | location way l =>
      obtain ⟨o, ho⟩ := hsettled
      rcases ht.locationOutcome?_cases hsound ho with ho' | ⟨t, hl, -⟩
      · exact absurd ⟨o, ho'⟩ (h.unsettled _ hw)
      · exact ht.fulfilled hsound (h.stands_of_location htangle hw (by rw [hl]; rfl)) ⟨o, ho⟩
  obtain ⟨w', hw', hwaits⟩ := htangle.waits w hw
  exact h.unsettled w' hw' (hfulfilled.settled hwaits)

/-- A poll that starts nothing but what is on the tangle. -/
theorem poll (h : Kept lib loads ways r) (htangle : Tangle lib loads ways) {task : Task}
    (hcan : CanStep r task)
    (hkey : ∀ k owner j b, task = .branch owner j → (branches r owner)[j]? = some b →
      b.target.key = k → (∃ pauses, (step task r).key? k = some (b.keyTask pauses)) →
      ∃ w ∈ ways, w.Stands lib loads (step task r) ∧ w.node = .key k)
    (hlocation : ∀ l k t, task = .key k → r.key? k = some t → lib.find k.base t.file = .ok l →
      (step task r).location? l = some (t.locationTask k) →
      ∃ w ∈ ways, w.Stands lib loads (step task r) ∧ w.node = .location l) :
    Kept lib loads ways (step task r) := by
  have ht : Transition lib r task (step task r) := transition_of_canStep h.reached.coherent.1 hcan
  refine ⟨h.reached.poll hcan, fun k hk => ?_, fun l hl => ?_, h.unsettled_of_transition htangle ht⟩
  · rcases ht.key?_cases hk with hk | ⟨owner, j, b, pauses, heq, hj, hbk, hk⟩
    · obtain ⟨w, hw, hstands, hnode⟩ := h.key k hk
      exact ⟨w, hw, hstands.later ht.later, hnode⟩
    · exact hkey k owner j b heq hj hbk ⟨pauses, hk⟩
  · rcases ht.location?_cases hl with hl | ⟨k, t, heq, hk, hfind, hl⟩
    · obtain ⟨w, hw, hstands, hnode⟩ := h.location l hl
      exact ⟨w, hw, hstands.later ht.later, hnode⟩
    · exact hlocation l k t heq hk hfind hl

theorem disk (h : Kept lib loads ways r) (htangle : Tangle lib loads ways)
    (hcalls : r.calls.ended < r.calls.begun) : Kept lib loads ways (step .disk r) :=
  h.poll htangle (canStep_disk hcalls) nofun nofun

theorem source (h : Kept lib loads ways r) (htangle : Tangle lib loads ways) {owner : Owner}
    (hcan : CanStep r (.source owner)) : Kept lib loads ways (step (.source owner) r) :=
  h.poll htangle hcan nofun nofun

theorem later (h : Kept lib loads ways r) {task : Task} (hcan : CanStep r task) :
    Later r (step task r) :=
  (transition_of_canStep h.reached.coherent.1 hcan).later

/-- A task is polled until there is what it leads to. -/
theorem exists_polled (h : Kept lib loads ways r) (htangle : Tangle lib loads ways) (task : Task)
    {P : Resolution → Prop} (hpoll : ∀ r', Kept lib loads ways r' → Later r r' →
      P r' ∨ CanStep r' task ∧ Kept lib loads ways (step task r')) :
    ∃ r', Kept lib loads ways r' ∧ Later r r' ∧ P r' := by
  have hreached : ∀ r', Kept lib loads ways r' ∧ Later r r' → Reached lib loads r' :=
    fun r' h' => h'.1.reached
  have hdisk : ∀ r', Kept lib loads ways r' ∧ Later r r' → r'.calls.ended < r'.calls.begun →
      Kept lib loads ways (step .disk r') ∧ Later r (step .disk r') := by
    rintro r' ⟨h', hlater⟩ hcalls
    exact ⟨h'.disk htangle hcalls, hlater.trans (h'.later (canStep_disk hcalls))⟩
  have hpolled : ∀ r', Kept lib loads ways r' ∧ Later r r' → P r' ∨ CanStep r' task ∧
      Kept lib loads ways (step task r') ∧ Later r (step task r') := by
    rintro r' ⟨h', hlater⟩
    refine (hpoll r' h' hlater).imp_right ?_
    rintro ⟨hcan, hnext⟩
    exact ⟨hcan, hnext, hlater.trans (h'.later hcan)⟩
  obtain ⟨r', ⟨h', hlater⟩, hdone⟩ :=
    Resolution.exists_polled hreached hdisk hpolled ⟨h, .refl r⟩
  exact ⟨r', h', hlater, hdone⟩

/-! ## Making ways stand -/

/-- A load can be staged. -/
theorem exists_stands_load (h : Kept lib loads ways r) (htangle : Tangle lib loads ways) {n : Nat}
    (hw : Way.load n ∈ ways) :
    ∃ r', Kept lib loads ways r' ∧ Later r r' ∧ (Way.load n).Stands lib loads r' := by
  have hn : n < loads.length := by
    cases htangle.isOpen _ hw with
    | load hn => exact hn
  -- It has begun, or it can begin.
  obtain ⟨r₁, h₁, hlater, i, phase, hi⟩ : ∃ r₁, Kept lib loads ways r₁ ∧ Later r r₁ ∧
      ∃ (i : Nat) (phase : InliningPhase), r₁.inlinings[i]? = some ⟨n, phase⟩ := by
    by_cases hbegun : ∃ x ∈ r.inlinings, x.load = n
    · obtain ⟨⟨_, phase⟩, hx, rfl⟩ := hbegun
      obtain ⟨i, hi⟩ := List.mem_iff_getElem?.mp hx
      exact ⟨r, h, .refl r, i, phase, hi⟩
    · have honce : ∀ x ∈ r.inlinings, x.load ≠ n := fun x hx heq => hbegun ⟨x, hx, heq⟩
      have hlater := Later.begin r n
      refine ⟨r.begin n, ⟨h.reached.begin n hn honce, fun k hk => ?_, fun l hl => ?_, ?_⟩, hlater,
        r.inlinings.length, .queued, List.getElem?_concat_length⟩
      · obtain ⟨w, hw, hstands, hnode⟩ := h.key k hk
        exact ⟨w, hw, hstands.later hlater, hnode⟩
      · obtain ⟨w, hw, hstands, hnode⟩ := h.location l hl
        exact ⟨w, hw, hstands.later hlater, hnode⟩
      · exact fun w hw hsettled => h.unsettled w hw (settled_of_begin hsettled)
  by_cases hqueued : phase = .queued
  · subst hqueued
    have hcan : CanStep r₁ (.source (.inlining i)) := by
      refine Or.inl ?_
      simp only [machine, standing, hi]
    refine ⟨_, h₁.source htangle hcan, hlater.trans (h₁.later hcan), .load hn ?_⟩
    have ht : Transition lib r₁ (.source (.inlining i)) (step (.source (.inlining i)) r₁) :=
      transition_of_canStep h₁.reached.coherent.1 hcan
    generalize step (.source (.inlining i)) r₁ = r₂ at ht
    have hset : ∀ {r₀ : Resolution} {phase : InliningPhase}, r₀.inlinings = r₁.inlinings →
        phase ≠ .queued → Staged (r₀.setInlining i phase) n := by
      intro r₀ phase hsame hphase
      refine ⟨i, phase, ?_, hphase⟩
      rw [getElem?_setInlining, if_pos rfl, hsame, hi]
      rfl
    cases ht with
    | plain => exact hset rfl (by simp)
    | refused => exact hset rfl (by simp)
    | staged => exact hset (inlinings_setLoadText ..) (by simp)
    | inlined => exact hset rfl (by simp)
  · exact ⟨r₁, h₁, hlater, .load hn ⟨i, phase, hi, hqueued⟩⟩

/-- A location can be polled until it has its branches. -/
theorem exists_expanding (h : Kept lib loads ways r) (htangle : Tangle lib loads ways) {w : Way}
    {l : Location} (hw : Way.location w l ∈ ways) (hstands : (Way.location w l).Stands lib loads r) :
    ∃ r', Kept lib loads ways r' ∧ Later r r' ∧
      ∃ t raw bs, r'.location? l = some t ∧ t.phase = .expanding raw bs := by
  refine h.exists_polled htangle (.source (.location l)) fun r' h' hlater => ?_
  obtain ⟨-, -, t, hl, -⟩ := (hstands.later hlater).of_location h'.reached.sound
  have hcan : ∀ {s}, standing r' (.source (.location l)) = s → s = .ready ∨ s = .asleep →
      CanStep r' (.source (.location l)) ∧
        Kept lib loads ways (step (.source (.location l)) r') := by
    rintro s rfl hs
    exact ⟨hs, h'.source htangle hs⟩
  rw [location?] at hl
  cases hphase : t.phase with
  | queued =>
    right
    refine hcan (s := .ready) ?_ (Or.inl rfl)
    simp only [standing, hl, hphase]
  | fetching pause =>
    right
    refine hcan (s := standingOfPause r' pause) ?_ (standingOfPause_cases r' pause)
    simp only [standing, hl, hphase]
  | expanding raw bs => exact Or.inl ⟨t, raw, bs, hl, hphase⟩
  | settled o =>
    exact absurd ⟨o, locationOutcome?_eq_some.mpr ⟨t, hl, hphase⟩⟩ (h'.unsettled _ hw)

/-- A source that stands can be polled until it has a branch for each of its imports. -/
theorem exists_branch (h : Kept lib loads ways r) (htangle : Tangle lib loads ways) {w : Way}
    (hw : w ∈ ways) (hstands : w.Stands lib loads r) {i : Import} (hasks : w.Asks lib loads i) :
    ∃ r', Kept lib loads ways r' ∧ Later r r' ∧ ∃ (owner : Owner) (j : Nat) (b : Branch),
      (branches r' owner)[j]? = some b ∧ b.target = i ∧ b.load = w.number ∧
        b.ancestry = w.ancestry loads := by
  have hbranch : ∀ {r' : Resolution} {address source : Text} {n : Nat} {ancestry : Ancestry}
      {bs : List Branch} {is : List Import}, Expanding lib r' address source n ancestry bs →
      lib.imports address source = .ok is → i ∈ is →
      ∃ (j : Nat) (b : Branch), bs[j]? = some b ∧ b.target = i ∧ b.load = n ∧
        b.ancestry = ancestry := by
    rintro r' address source n ancestry bs is ⟨himports, hbs⟩ himports' hi
    rw [himports] at himports'
    cases himports'
    obtain ⟨b, hb, rfl⟩ := List.mem_map.mp hi
    obtain ⟨j, hj⟩ := List.mem_iff_getElem?.mp hb
    exact ⟨j, b, hj, rfl, (hbs b hb).1, (hbs b hb).2.1⟩
  cases w with
  | load n =>
    obtain ⟨load, is, hload, himports, hi⟩ := hasks
    cases hstands with
    | load _ hstaged =>
      obtain ⟨x, phase, hx, hphase⟩ := hstaged
      obtain ⟨load', hload', hsound⟩ := h.reached.sound.inlinings x n phase hx
      rw [hload] at hload'
      cases hload'
      cases phase with
      | queued => exact absurd rfl hphase
      | settled o => exact absurd ⟨x, o, hx⟩ (h.unsettled _ hw)
      | expanding bs =>
        obtain ⟨j, b, hj, htarget, hnumber, hancestry⟩ := hbranch hsound himports hi
        refine ⟨r, h, .refl r, .inlining x, j, b, ?_, htarget, hnumber, ?_⟩
        · rw [branches_inlining hx]
          exact hj
        · rw [hancestry, Way.ancestry_load hload]
  | key => exact hasks.elim
  | location way l =>
    obtain ⟨raw, is, hfetch, himports, hi⟩ := hasks
    obtain ⟨r', h', hlater, t, raw', bs, hl, hphase⟩ := h.exists_expanding htangle hw hstands
    obtain ⟨-, -, t', hl', hload, hancestry⟩ := (hstands.later hlater).of_location h'.reached.sound
    rw [hl] at hl'
    cases hl'
    have hsound := (h'.reached.sound.locations l t hl).2
    rw [hphase] at hsound
    obtain ⟨hfetch', hexpanding⟩ := hsound
    rw [hfetch] at hfetch'
    cases hfetch'
    obtain ⟨j, b, hj, htarget, hnumber, hb⟩ := hbranch hexpanding himports hi
    refine ⟨r', h', hlater, .location l, j, b, ?_, htarget, hnumber.trans hload, ?_⟩
    · rw [branches_location hl hphase]
      exact hj
    · rw [hb, hancestry]
      rfl

/-- A key can be started by the source before it. -/
theorem exists_stands_key (h : Kept lib loads ways r) (htangle : Tangle lib loads ways) {w : Way}
    {i : Import} (hw : Way.key w i ∈ ways) (hstands : w.Stands lib loads r) :
    ∃ r', Kept lib loads ways r' ∧ Later r r' ∧ (Way.key w i).Stands lib loads r' := by
  cases htangle.isOpen _ hw with
  | key _ hasks hnot =>
    obtain ⟨r₁, h₁, hlater, owner, j, b, hj, rfl, hload, hancestry⟩ :=
      h.exists_branch htangle (htangle.of_key w i hw) hstands hasks
    by_cases hk : (r₁.key? b.target.key).isSome
    · exact ⟨r₁, h₁, hlater, h₁.stands_of_key htangle hw hk⟩
    · -- The branch is still fresh, for no one has asked for its key.
      have hb := (h₁.reached.sound.branch hj).2
      have hfresh : b.phase = .fresh := by
        cases hphase : b.phase with
        | fresh => rfl
        | reserved own =>
          rw [hphase] at hb
          exact absurd hb.2 hk
        | settled o =>
          rw [hphase] at hb
          rcases hb with ⟨hmem, -⟩ | ⟨-, ho⟩
          · exact absurd (hancestry ▸ hmem) hnot
          · obtain ⟨t, ht, -⟩ := keyOutcome?_eq_some.mp ho
            exact absurd (by rw [ht]; rfl) hk
      have hcan : CanStep r₁ (.branch owner j) := by
        refine Or.inl ?_
        simp only [machine, standing, hj, hfresh]
      have ht : Transition lib r₁ (.branch owner j) (step (.branch owner j) r₁) :=
        transition_of_canStep h₁.reached.coherent.1 hcan
      have hstands₁ := (hstands.later hlater).later ht.later
      have hway : ∀ {pauses},
          (step (.branch owner j) r₁).key? b.target.key = some (b.keyTask pauses) →
          (Way.key w b.target).Stands lib loads (step (.branch owner j) r₁) :=
        fun hk => .key hstands₁ hasks hk rfl hload hancestry
      have hasked : ((step (.branch owner j) r₁).key? b.target.key).isSome := by
        generalize step (.branch owner j) r₁ = r₂ at ht
        cases ht with
        | looped hj' _ hmem =>
          rw [hj] at hj'
          cases hj'
          exact absurd (hancestry ▸ hmem) hnot
        | asked pauses hj' =>
          rw [hj] at hj'
          cases hj'
          rw [key?_setBranch, key?_setKey, if_pos rfl]
          rfl
        | joined hj' _ _ hk' =>
          rw [hj] at hj'
          cases hj'
          exact absurd (by rw [hk']; rfl) hk
        | answered hj' hphase =>
          rw [hj] at hj'
          cases hj'
          rw [hfresh] at hphase
          cases hphase
      have hkept : Kept lib loads ways (step (.branch owner j) r₁) := by
        refine h₁.poll htangle hcan ?_ (by simp)
        rintro k owner' j' b' ⟨⟩ hj' rfl ⟨pauses, hk'⟩
        rw [hj] at hj'
        cases hj'
        exact ⟨_, hw, hway hk', rfl⟩
      exact ⟨_, hkept, hlater.trans ht.later, hkept.stands_of_key htangle hw hasked⟩

/-- A location can be started by the key before it. -/
theorem exists_stands_location (h : Kept lib loads ways r) (htangle : Tangle lib loads ways)
    {w : Way} {i : Import} {l : Location} (hw : Way.location (.key w i) l ∈ ways)
    (hstands : (Way.key w i).Stands lib loads r) :
    ∃ r', Kept lib loads ways r' ∧ Later r r' ∧
      (Way.location (.key w i) l).Stands lib loads r' := by
  obtain ⟨hfind, hnot⟩ : (Way.key w i).Finds lib loads l := by
    cases htangle.isOpen _ hw with
    | location _ hfinds => exact hfinds
  refine h.exists_polled htangle (.key i.key) fun r' h' hlater => ?_
  have hsound := h'.reached.sound
  have hstands' := hstands.later hlater
  by_cases hl : (r'.location? l).isSome
  · exact Or.inl (h'.stands_of_location htangle hw hl)
  · right
    obtain ⟨-, -, t, hk, hfile, -⟩ := hstands'.of_key
    have hcan : ∀ {s}, standing r' (.key i.key) = s → s = .ready ∨ s = .asleep →
        CanStep r' (.key i.key) := by
      rintro s rfl hs
      exact hs
    have hcan : CanStep r' (.key i.key) := by
      have hphase := (hsound.keys _ t hk).2.2
      have hget : Table.get? r'.cache.keys i.key = some t := hk
      cases ht : t.phase with
      | normalizing pauses =>
        refine hcan (s := standingOfPauses pauses) ?_ (standingOfPauses_cases pauses)
        simp only [standing, hget, ht]
      | locating name pause candidates =>
        refine hcan (s := standingOfPause r' pause) ?_ (standingOfPause_cases r' pause)
        simp only [standing, hget, ht]
      | reserved l' own =>
        rw [ht, hfile] at hphase
        obtain ⟨hfind', -, hl'⟩ := hphase
        rw [hfind] at hfind'
        cases hfind'
        exact absurd hl' hl
      | settled o =>
        exact absurd ⟨o, keyOutcome?_eq_some.mpr ⟨t, hk, ht⟩⟩
          (h'.unsettled _ (htangle.of_location _ _ hw))
    refine ⟨hcan, h'.poll htangle hcan (by simp) ?_⟩
    rintro l' k t' ⟨⟩ hk' hfind' hl'
    rw [hk] at hk'
    cases hk'
    rw [hfile, hfind] at hfind'
    cases hfind'
    exact ⟨_, hw, .location (hstands'.later (h'.later hcan)) hl' rfl, rfl⟩

/-- Every way of a tangle can be made to stand. -/
theorem exists_stands (htangle : Tangle lib loads ways) :
    ∀ {w : Way} {r : Resolution}, Kept lib loads ways r → w ∈ ways →
      ∃ r', Kept lib loads ways r' ∧ Later r r' ∧ w.Stands lib loads r'
  | .load _, _, h, hw => h.exists_stands_load htangle hw
  | .key w i, _, h, hw => by
    obtain ⟨r₁, h₁, hlater₁, hstands⟩ := exists_stands htangle h (htangle.of_key w i hw)
    obtain ⟨r₂, h₂, hlater₂, hstands⟩ := h₁.exists_stands_key htangle hw hstands
    exact ⟨r₂, h₂, hlater₁.trans hlater₂, hstands⟩
  | .location w l, _, h, hw => by
    obtain ⟨r₁, h₁, hlater₁, hstands⟩ := exists_stands htangle h (htangle.of_location w l hw)
    cases htangle.isOpen _ hw with
    | location _ hfinds =>
      cases w with
      | load => exact hfinds.elim
      | location => exact hfinds.elim
      | key w i =>
        obtain ⟨r₂, h₂, hlater₂, hstands⟩ := h₁.exists_stands_location htangle hw hstands
        exact ⟨r₂, h₂, hlater₁.trans hlater₂, hstands⟩

end Kept

theorem kept_submitted (lib : Library) (loads : List Load) (ways : Finset Way) :
    Kept lib loads ways { Resolution.start lib.loader lib.extension lib.disk with loads } := by
  refine ⟨reached_submitted lib loads, ?_, ?_, ?_⟩
  · rintro k ⟨⟩
  · rintro l ⟨⟩
  · rintro w _ hsettled
    cases w with
    | load n =>
      obtain ⟨i, o, ⟨⟩⟩ := hsettled
    | key w i =>
      obtain ⟨o, ⟨⟩⟩ := hsettled
    | location w l =>
      obtain ⟨o, ⟨⟩⟩ := hsettled

end StyleBatch.Resolution

namespace StyleBatch

open Resolution

variable {lib : Library} {loads : List Load} {ways : Finset Way}

/-- There is a run in which all ways of a tangle stand. -/
theorem Tangle.exists_caught (h : Tangle lib loads ways) :
    ∃ r, Reached lib loads r ∧ Caught lib loads ways r := by
  have hsome : ∀ some ⊆ ways, ∃ r, Kept lib loads ways r ∧ ∀ w ∈ some, w.Stands lib loads r := by
    intro some
    induction some using Finset.induction_on with
    | empty => exact fun _ => ⟨_, kept_submitted lib loads ways, by simp⟩
    | insert w some _ ih =>
      intro hsub
      obtain ⟨hw, hsome⟩ := Finset.insert_subset_iff.mp hsub
      obtain ⟨r, hr, hstands⟩ := ih hsome
      obtain ⟨r', hr', hlater, hway⟩ := Kept.exists_stands h hr hw
      refine ⟨r', hr', fun w' hw' => ?_⟩
      rcases Finset.mem_insert.mp hw' with rfl | hw'
      · exact hway
      · exact (hstands w' hw').later hlater
  obtain ⟨r, hr, hstands⟩ := hsome ways subset_rfl
  exact ⟨r, hr.reached, fun w hw => ⟨hstands w hw, hr.unsettled w hw⟩⟩

/-- There is a run that begins all loads and comes to rest with a tangle as it is. -/
theorem Tangle.exists_rest (h : Tangle lib loads ways) : ∃ r, Reached lib loads r ∧ AtRest r ∧
    (∀ m < loads.length, m ∈ r.inlinings.map Inlining.load) ∧ Caught lib loads ways r := by
  obtain ⟨r₀, hr₀, hcaught₀⟩ := h.exists_caught
  have hbegun : ∀ k ≤ loads.length, ∃ r, Reached lib loads r ∧ Caught lib loads ways r ∧
      ∀ m < k, m ∈ r.inlinings.map Inlining.load := by
    intro k hk
    induction k with
    | zero => exact ⟨r₀, hr₀, hcaught₀, by simp⟩
    | succ k ih =>
      obtain ⟨r, hr, hcaught, hbegun⟩ := ih (by omega)
      by_cases hnew : k ∈ r.inlinings.map Inlining.load
      · refine ⟨r, hr, hcaught, fun m hm => ?_⟩
        rcases Nat.lt_succ_iff_lt_or_eq.mp hm with hm | rfl
        · exact hbegun m hm
        · exact hnew
      · have honce : ∀ x ∈ r.inlinings, x.load ≠ k :=
          fun x hx heq => hnew (List.mem_map.mpr ⟨x, hx, heq⟩)
        refine ⟨r.begin k, hr.begin k (by omega) honce, hcaught.begin k, fun m hm => ?_⟩
        rw [Resolution.begin, List.map_append, List.mem_append]
        rcases Nat.lt_succ_iff_lt_or_eq.mp hm with hm | rfl
        · exact Or.inl (hbegun m hm)
        · exact Or.inr (by simp)
  obtain ⟨r, hr, hcaught, hall⟩ := hbegun loads.length le_rfl
  obtain ⟨r', hpolls, hrest⟩ := Resolution.exists_rest hr
  refine ⟨r', hr.of_polls hpolls, hrest, ?_, hcaught.polls h hr hpolls⟩
  rw [hr.map_load_inlinings hpolls]
  exact hall

end StyleBatch
