import StyleBatch.Proofs.Resolution.Rest
import StyleBatch.Proofs.Resolution.Settling

/-!
# What hangs is a tangle

At rest, the ways that stand and are not settled are a tangle (`AtRest.exists_tangle`).  And once
all ways of a tangle stand, none of them is ever settled, because an outcome would rest on an
outcome that was there before (`Caught.transition`).
-/

namespace StyleBatch.Resolution

variable {lib : Library} {loads : List Load} {r r' : Resolution} {ways : Finset Way}

/-! ## Caught for ever -/

/-- All of some ways stand, and none of them is settled. -/
def Caught (lib : Library) (loads : List Load) (ways : Finset Way) (r : Resolution) : Prop :=
  ∀ w ∈ ways, w.Stands lib loads r ∧ ¬w.Settled r

theorem Caught.congr (h : Caught lib loads ways r) (hlater : Later r r')
    (hsettled : ∀ w ∈ ways, w.Settled r' → w.Settled r) : Caught lib loads ways r' :=
  fun w hw => ⟨(h w hw).1.later hlater, fun hw' => (h w hw).2 (hsettled w hw hw')⟩

/-- What is caught in a tangle stays caught. -/
theorem Caught.transition (htangle : Tangle lib loads ways) (h : Caught lib loads ways r)
    (hsound : Sound lib loads r) {task : Task} (ht : Transition lib r task r') :
    Caught lib loads ways r' := by
  refine fun w hw => ⟨(h w hw).1.later ht.later, fun hsettled => ?_⟩
  obtain ⟨w', hw', hwaits⟩ := htangle.waits w hw
  exact (h w' hw').2 ((ht.fulfilled hsound (h w hw).1 hsettled).settled hwaits)

theorem Caught.polls (htangle : Tangle lib loads ways) (hr : Reached lib loads r)
    (h : Caught lib loads ways r) (hpolls : Relation.ReflTransGen Poll r r') :
    Caught lib loads ways r' := by
  induction hpolls with
  | refl => exact h
  | tail hbefore hpoll ih =>
    obtain ⟨task, hcan, rfl⟩ := hpoll
    have hreached := hr.of_polls hbefore
    exact ih.transition htangle hreached.sound (transition_of_canStep hreached.coherent.1 hcan)

/-- What begins is not settled yet. -/
theorem settled_of_begin {n : Nat} {w : Way} (h : w.Settled (r.begin n)) : w.Settled r := by
  cases w with
  | load n' =>
    obtain ⟨i, o, hi⟩ := h
    refine ⟨i, o, ?_⟩
    rw [Resolution.begin, List.getElem?_append] at hi
    split at hi
    · exact hi
    · have hlast := List.mem_singleton.mp (List.mem_of_getElem? hi)
      cases hlast
  | key => exact h
  | location => exact h

/-- Other loads that begin do not help. -/
theorem Caught.begin (h : Caught lib loads ways r) (n : Nat) : Caught lib loads ways (r.begin n) :=
  h.congr (.begin r n) fun _ _ hsettled => settled_of_begin hsettled

/-- No fair run ever settles what is caught in a tangle. -/
theorem FairRun.caught (run : FairRun lib loads) (htangle : Tangle lib loads ways)
    (h : Caught lib loads ways (run.state 0)) (m : Nat) :
    Caught lib loads ways (run.state m) := by
  induction m with
  | zero => exact h
  | succ m ih =>
    have hreached := run.reached_state m
    cases hturn : run.turn m with
    | some task =>
      obtain ⟨hcan, hnext⟩ := run.poll m task hturn
      rw [hnext]
      exact ih.transition htangle hreached.sound (transition_of_canStep hreached.coherent.1 hcan)
    | none =>
      obtain ⟨world, -, hnext⟩ := run.elsewhere m hturn
      rw [hnext]
      refine ih.congr (.of_eq rfl rfl) fun w _ hsettled => ?_
      cases w <;> exact hsettled

/-! ## At rest -/

/-- Of the ways that stand there are finitely many. -/
theorem Sound.finite_stands (h : Sound lib loads r) : {w : Way | w.Stands lib loads r}.Finite := by
  have hinj : Set.InjOn Way.node {w : Way | w.Stands lib loads r} :=
    fun w hw w' hw' hnode => hw.unique h hw' hnode
  refine Set.Finite.of_finite_image ?_ hinj
  have hloads := (List.range loads.length).finite_toSet.image Way.Node.load
  have hkeys := (Table.keys r.cache.keys).finite_toSet.image Way.Node.key
  have hlocations := (Table.keys r.cache.locations).finite_toSet.image Way.Node.location
  refine ((hloads.union hkeys).union hlocations).subset ?_
  rintro _ ⟨w, hw, rfl⟩
  cases hw with
  | load hn => exact Or.inl (Or.inl ⟨_, List.mem_range.mpr hn, rfl⟩)
  | key _ _ hk =>
    refine Or.inl (Or.inr ⟨_, Table.mem_keys_iff.mpr ?_, rfl⟩)
    exact Option.isSome_iff_exists.mpr ⟨_, hk⟩
  | location _ hl =>
    refine Or.inr ⟨_, Table.mem_keys_iff.mpr ?_, rfl⟩
    exact Option.isSome_iff_exists.mpr ⟨_, hl⟩

/-- At rest, an unsettled source waits for a way that stands and is not settled. -/
theorem Sound.exists_waits_of_branch (h : Sound lib loads r) {w : Way} {b : Branch}
    {ancestry : Ancestry} (hancestry : w.ancestry loads = ancestry)
    (hasks : w.Asks lib loads b.target) (hb : b.phase.Sound r ancestry b.target.key) {own : Bool}
    (hreserved : b.phase = .reserved own) (hnone : keyOutcome? r b.target.key = none) :
    ∃ w', (w'.Stands lib loads r ∧ ¬w'.Settled r) ∧ w.Waits lib loads w' := by
  rw [hreserved] at hb
  obtain ⟨hnot, hk⟩ := hb
  obtain ⟨t, ht⟩ := Option.isSome_iff_exists.mp hk
  obtain ⟨way, hway, -⟩ := h.exists_way_key ht
  refine ⟨_, ⟨hway, ?_⟩, b.target, hasks, rfl, hancestry ▸ hnot⟩
  rintro ⟨o, ho⟩
  rw [hnone] at ho
  cases ho

theorem AtRest.exists_waits (hrest : AtRest r) (h : Sound lib loads r) {w : Way}
    (hw : w.Stands lib loads r) (hopen : ¬w.Settled r) :
    ∃ w', (w'.Stands lib loads r ∧ ¬w'.Settled r) ∧ w.Waits lib loads w' := by
  cases w with
  | load n =>
    cases hw with
    | load _ hstaged =>
      obtain ⟨i, phase, hi, -⟩ := hstaged
      rcases hrest.inlining hi with ⟨o, rfl⟩ | ⟨bs, rfl, b, hb, own, hreserved, hnone⟩
      · exact absurd ⟨i, o, hi⟩ hopen
      · obtain ⟨load, hload, himports, hbs⟩ := h.inlinings i n _ hi
        have hasks : (Way.load n).Asks lib loads b.target :=
          ⟨load, _, hload, himports, List.mem_map_of_mem hb⟩
        exact h.exists_waits_of_branch (Way.ancestry_load hload) hasks (hbs b hb).2.2 hreserved hnone
  | key way i =>
    obtain ⟨-, -, t, hk, hfile, -, hancestry⟩ := hw.of_key
    rcases hrest.key hk with ⟨o, hphase⟩ | ⟨l, own, hphase, hnone⟩
    · exact absurd ⟨o, keyOutcome?_eq_some.mpr ⟨t, hk, hphase⟩⟩ hopen
    · have hsound := (h.keys _ t hk).2.2
      rw [hphase] at hsound
      obtain ⟨hfind, hnot, hl⟩ := hsound
      obtain ⟨u, hu⟩ := Option.isSome_iff_exists.mp hl
      obtain ⟨way', hway', -⟩ := h.exists_way_location hu
      refine ⟨_, ⟨hway', ?_⟩, hfile ▸ hfind, hancestry ▸ hnot⟩
      rintro ⟨o, ho⟩
      rw [hnone] at ho
      cases ho
  | location way l =>
    obtain ⟨-, -, t, hl, -, hancestry⟩ := hw.of_location h
    rcases hrest.location hl with ⟨o, hphase⟩ | ⟨raw, bs, hphase, b, hb, own, hreserved, hnone⟩
    · exact absurd ⟨o, locationOutcome?_eq_some.mpr ⟨t, hl, hphase⟩⟩ hopen
    · have hsound := (h.locations l t hl).2
      rw [hphase] at hsound
      obtain ⟨hfetch, himports, hbs⟩ := hsound
      have hasks : (Way.location way l).Asks lib loads b.target :=
        ⟨raw, _, hfetch, himports, List.mem_map_of_mem hb⟩
      have hway : (Way.location way l).ancestry loads = l.text :: t.ancestry := by
        rw [hancestry]
        rfl
      exact h.exists_waits_of_branch hway hasks (hbs b hb).2.2 hreserved hnone

/-- At rest, a load that is not settled is in a tangle. -/
theorem AtRest.exists_tangle (hrest : AtRest r) (h : Sound lib loads r) {i n : Nat}
    {phase : InliningPhase} (hi : r.inlinings[i]? = some ⟨n, phase⟩)
    (hopen : ∀ o, phase ≠ .settled o) : ∃ ways, Tangle lib loads ways ∧ Way.load n ∈ ways := by
  have hfinite : {w : Way | w.Stands lib loads r ∧ ¬w.Settled r}.Finite :=
    h.finite_stands.subset fun w hw => hw.1
  have hmem : ∀ w, w ∈ hfinite.toFinset ↔ w.Stands lib loads r ∧ ¬w.Settled r :=
    fun w => hfinite.mem_toFinset
  refine ⟨hfinite.toFinset, ⟨?_, ?_, ?_, ?_, ?_⟩, (hmem _).mpr ⟨?_, ?_⟩⟩
  · exact fun w hw => ((hmem w).mp hw).1.open h
  · -- A settled source has settled keys.
    intro w i hw
    obtain ⟨hstands, hnot⟩ := (hmem _).mp hw
    obtain ⟨hway, hasks, -⟩ := hstands.of_key
    refine (hmem w).mpr ⟨hway, fun hsettled => hnot ?_⟩
    cases hstands.open h with
    | key _ _ hkey => exact (hway.fulfilled h hsettled).settled ⟨i, hasks, rfl, hkey⟩
  · intro w l hw
    obtain ⟨hstands, hnot⟩ := (hmem _).mp hw
    obtain ⟨hway, hfinds, -⟩ := hstands.of_location h
    exact (hmem w).mpr ⟨hway, fun hsettled => hnot ((hway.fulfilled h hsettled).settled hfinds)⟩
  · intro w hw w' hw' hnode
    exact ((hmem w).mp hw).1.unique h ((hmem w').mp hw').1 hnode
  · intro w hw
    obtain ⟨hstands, hnot⟩ := (hmem w).mp hw
    obtain ⟨w', hw', hwaits⟩ := hrest.exists_waits h hstands hnot
    exact ⟨w', (hmem w').mpr hw', hwaits⟩
  · obtain ⟨load, hload, -⟩ := h.inlinings i n phase hi
    have hn : n < loads.length := (List.getElem?_eq_some_iff.mp hload).1
    rcases hrest.inlining hi with ⟨o, rfl⟩ | ⟨bs, rfl, -⟩
    · exact absurd rfl (hopen o)
    · exact .load hn ⟨i, _, hi, nofun⟩
  · rintro ⟨i', o, hi'⟩
    have hii' := h.once i i' _ _ hi hi' rfl
    subst hii'
    rw [hi] at hi'
    cases hi'
    exact hopen o rfl

end StyleBatch.Resolution
