import StyleBatch.Proofs.Resolution.Rank

/-!
# Where runs come to rest

A resolution is at rest when no task can move.  Every run comes to rest if it goes on polling
what can move, because each poll that changes anything makes the rank smaller.  What is not
settled then waits: a source for a key, a key for a location (`AtRest.source`, `AtRest.key`).

* `exists_rest`: some polls lead to rest.
* `FairRun.eventually_rest`: every fair run comes to rest, in whatever order it polls.
* `exists_fairRun`: there is one from every state.
-/

namespace StyleBatch.Resolution

/-- No task can move. -/
def AtRest (r : Resolution) : Prop :=
  ∀ task, ¬CanStep r task

/-- A poll of a task that can move. -/
def Poll (r r' : Resolution) : Prop :=
  ∃ task, CanStep r task ∧ r' = step task r

section AtRest

variable {r : Resolution}

theorem standingOfPauses_cases (pauses : Nat) :
    standingOfPauses pauses = .ready ∨ standingOfPauses pauses = .asleep := by
  cases pauses with
  | zero => exact Or.inl rfl
  | succ => exact Or.inr rfl

theorem standingOfPause_cases {α : Type} (r : Resolution) (pause : Pause α) :
    standingOfPause r pause = .ready ∨ standingOfPause r pause = .asleep := by
  cases pause with
  | ticks left => exact standingOfPauses_cases left
  | call number answer =>
    rw [standingOfPause]
    split
    · exact Or.inl rfl
    · exact Or.inr rfl

/-- At rest, a key that is not settled waits for a location. -/
theorem AtRest.key (hrest : AtRest r) {k : Key} {t : KeyTask} (hk : r.key? k = some t) :
    (∃ o, t.phase = .settled o) ∨
      ∃ l own, t.phase = .reserved l own ∧ locationOutcome? r l = none := by
  have hnot := hrest (.key k)
  rw [key?] at hk
  simp only [CanStep, Machine.CanStep, machine, standing, hk] at hnot
  cases hphase : t.phase with
  | normalizing pauses =>
    rw [hphase] at hnot
    exact absurd (standingOfPauses_cases pauses) hnot
  | locating name pause candidates =>
    rw [hphase] at hnot
    exact absurd (standingOfPause_cases r pause) hnot
  | reserved l own =>
    rw [hphase] at hnot
    refine Or.inr ⟨l, own, rfl, ?_⟩
    cases ho : locationOutcome? r l with
    | none => rfl
    | some o => simp [ho, standingOfWait] at hnot
  | settled o => exact Or.inl ⟨o, rfl⟩

/-- At rest, a source with an open branch waits for a key. -/
theorem AtRest.branch (hrest : AtRest r) {owner : Owner} {j : Nat} {b : Branch}
    (hj : (branches r owner)[j]? = some b) :
    (∃ o, b.phase = .settled o) ∨
      ∃ own, b.phase = .reserved own ∧ keyOutcome? r b.target.key = none := by
  have hnot := hrest (.branch owner j)
  simp only [CanStep, Machine.CanStep, machine, standing, hj] at hnot
  cases hphase : b.phase with
  | fresh =>
    rw [hphase] at hnot
    exact absurd (Or.inl rfl) hnot
  | reserved own =>
    rw [hphase] at hnot
    refine Or.inr ⟨own, rfl, ?_⟩
    cases ho : keyOutcome? r b.target.key with
    | none => rfl
    | some o => simp [ho, standingOfWait] at hnot
  | settled o => exact Or.inl ⟨o, rfl⟩

theorem standingOfSource_of_allSettled {owner : Owner} {bs : List Branch} (h : AllSettled bs) :
    standingOfSource owner bs = .ready := by
  have hopen : openBranches owner bs = [] := by
    simp only [openBranches, List.map_eq_nil_iff, List.filter_eq_nil_iff]
    rintro ⟨b, j⟩ hb
    obtain ⟨o, ho⟩ := h b (List.fst_mem_of_mem_zipIdx hb)
    simp [ho, BranchPhase.outcome?]
  rw [standingOfSource, hopen]

/-- At rest, a source that is expanding has a branch that waits for a key. -/
theorem AtRest.source (hrest : AtRest r) {owner : Owner}
    (hstanding : standing r (.source owner) = standingOfSource owner (branches r owner)) :
    ∃ b ∈ branches r owner, ∃ own, b.phase = .reserved own ∧
      keyOutcome? r b.target.key = none := by
  by_contra hnone
  have hsettled : AllSettled (branches r owner) := by
    intro b hb
    obtain ⟨j, hj⟩ := List.mem_iff_getElem?.mp hb
    rcases hrest.branch hj with hsettled | hwaits
    · exact hsettled
    · exact absurd ⟨b, hb, hwaits⟩ hnone
  refine hrest (.source owner) (Or.inl ?_)
  show standing r (.source owner) = .ready
  rw [hstanding, standingOfSource_of_allSettled hsettled]

/-- At rest, a location that is not settled has a branch that waits for a key. -/
theorem AtRest.location (hrest : AtRest r) {l : Location} {t : LocationTask}
    (hl : r.location? l = some t) : (∃ o, t.phase = .settled o) ∨
      ∃ raw bs, t.phase = .expanding raw bs ∧ ∃ b ∈ bs, ∃ own, b.phase = .reserved own ∧
        keyOutcome? r b.target.key = none := by
  have hnot := hrest (.source (.location l))
  simp only [CanStep, Machine.CanStep, machine, standing] at hnot
  rw [location?] at hl
  rw [hl] at hnot
  cases hphase : t.phase with
  | queued => simp [hphase] at hnot
  | fetching pause =>
    simp only [hphase] at hnot
    exact absurd (standingOfPause_cases r pause) hnot
  | expanding raw bs =>
    refine Or.inr ⟨raw, bs, rfl, ?_⟩
    have hbs : branches r (.location l) = bs := branches_location hl hphase
    have hstanding : standing r (.source (.location l)) =
        standingOfSource (.location l) (branches r (.location l)) := by
      rw [hbs]
      simp only [standing, hl, hphase]
    have hsource := hrest.source hstanding
    rwa [hbs] at hsource
  | settled o => exact Or.inl ⟨o, rfl⟩

/-- At rest, a load that is not settled has a branch that waits for a key. -/
theorem AtRest.inlining (hrest : AtRest r) {i n : Nat} {phase : InliningPhase}
    (hi : r.inlinings[i]? = some ⟨n, phase⟩) : (∃ o, phase = .settled o) ∨
      ∃ bs, phase = .expanding bs ∧ ∃ b ∈ bs, ∃ own, b.phase = .reserved own ∧
        keyOutcome? r b.target.key = none := by
  have hnot := hrest (.source (.inlining i))
  simp only [CanStep, Machine.CanStep, machine, standing, hi] at hnot
  cases phase with
  | queued => exact absurd (Or.inl rfl) hnot
  | expanding bs =>
    refine Or.inr ⟨bs, rfl, ?_⟩
    have hbs : branches r (.inlining i) = bs := branches_inlining hi
    have hstanding : standing r (.source (.inlining i)) =
        standingOfSource (.inlining i) (branches r (.inlining i)) := by
      rw [hbs]
      simp only [standing, hi]
    have hsource := hrest.source hstanding
    rwa [hbs] at hsource
  | settled o => exact Or.inl ⟨o, rfl⟩

end AtRest

/-! ## Coming to rest -/

variable {lib : Library} {loads : List Load} {r r' : Resolution}

/-- A poll makes the rank smaller, unless it meets a disk call that has not ended. -/
theorem Reached.rank_lt (h : Reached lib loads r) {task : Task} (hcan : CanStep r task) :
    rank lib loads (step task r) < rank lib loads r ∨
      step task r = r ∧ r.calls.ended < r.calls.begun :=
  (transition_of_canStep h.coherent.1 hcan).rank_lt h.sound

/-- The disk can always end a call that has begun. -/
theorem canStep_disk (h : r.calls.ended < r.calls.begun) : CanStep r .disk := by
  refine Or.inr ?_
  show standing r .disk = .asleep
  rw [standing, if_pos h]

/-- Ending calls makes the rank smaller. -/
theorem Reached.rank_disk_lt (h : Reached lib loads r) (hcalls : r.calls.ended < r.calls.begun) :
    rank lib loads (step .disk r) < rank lib loads r := by
  rcases h.rank_lt (canStep_disk hcalls) with hlt | ⟨heq, -⟩
  · exact hlt
  · have hended : (step .disk r).calls.ended = r.calls.begun := rfl
    rw [heq] at hended
    omega

theorem Reached.of_polls (h : Reached lib loads r) (hpolls : Relation.ReflTransGen Poll r r') :
    Reached lib loads r' := by
  induction hpolls with
  | refl => exact h
  | tail _ hpoll ih =>
    obtain ⟨task, hcan, rfl⟩ := hpoll
    exact ih.poll hcan

/-- Polls begin no load. -/
theorem Reached.map_load_inlinings (h : Reached lib loads r)
    (hpolls : Relation.ReflTransGen Poll r r') :
    r'.inlinings.map Inlining.load = r.inlinings.map Inlining.load := by
  induction hpolls with
  | refl => rfl
  | tail hbefore hpoll ih =>
    obtain ⟨task, hcan, rfl⟩ := hpoll
    have ht := transition_of_canStep (h.of_polls hbefore).coherent.1 hcan
    exact ht.map_load_inlinings.trans ih

/-- Polling one task leads to `P`, if every poll of it leads to `P` or leaves it one more. -/
theorem exists_polled {Q P : Resolution → Prop} {task : Task}
    (hreached : ∀ r, Q r → Reached lib loads r)
    (hdisk : ∀ r, Q r → r.calls.ended < r.calls.begun → Q (step .disk r))
    (hpoll : ∀ r, Q r → P r ∨ CanStep r task ∧ Q (step task r)) (h : Q r) : ∃ r', Q r' ∧ P r' := by
  generalize hrank : rank lib loads r = n
  induction n using WellFoundedLT.induction generalizing r with
  | ind n ih =>
    subst hrank
    rcases hpoll r h with hdone | ⟨hcan, hnext⟩
    · exact ⟨r, h, hdone⟩
    · rcases (hreached r h).rank_lt hcan with hlt | ⟨-, hcalls⟩
      · exact ih _ hlt hnext rfl
      · exact ih _ ((hreached r h).rank_disk_lt hcalls) (hdisk r h hcalls) rfl

/-- From every state some polls lead to rest. -/
theorem exists_rest (h : Reached lib loads r) :
    ∃ r', Relation.ReflTransGen Poll r r' ∧ AtRest r' := by
  generalize hrank : rank lib loads r = n
  induction n using WellFoundedLT.induction generalizing r with
  | ind n ih =>
    subst hrank
    by_cases hrest : AtRest r
    · exact ⟨r, .refl, hrest⟩
    · simp only [AtRest, not_forall, not_not] at hrest
      obtain ⟨task, hcan⟩ := hrest
      have hstep : ∃ task, CanStep r task ∧ rank lib loads (step task r) < rank lib loads r := by
        rcases h.rank_lt hcan with hlt | ⟨-, hcalls⟩
        · exact ⟨task, hcan, hlt⟩
        · exact ⟨.disk, canStep_disk hcalls, h.rank_disk_lt hcalls⟩
      obtain ⟨task, hcan, hlt⟩ := hstep
      obtain ⟨r', hpolls, hrest⟩ := ih _ hlt (h.poll hcan) rfl
      exact ⟨r', .head ⟨task, hcan, rfl⟩ hpolls, hrest⟩

/-! ## Fair runs -/

/-- An endless run that never leaves out for ever what can move.  The loads that it is about
were submitted and begun before, in any way; at every moment it polls one task, or something
happens elsewhere. -/
structure FairRun (lib : Library) (loads : List Load) where
  state : Nat → Resolution
  turn : Nat → Option Task
  reached : Reached lib loads (state 0)
  poll : ∀ m task, turn m = some task →
    CanStep (state m) task ∧ state (m + 1) = step task (state m)
  elsewhere : ∀ m, turn m = none →
    ∃ world, lib.SameOn world.disk ∧ state (m + 1) = { state m with world }
  fair : ∀ m task, (∀ m' ≥ m, CanStep (state m') task) → ∃ m' ≥ m, turn m' = some task

namespace FairRun

variable (run : FairRun lib loads)

theorem reached_state (m : Nat) : Reached lib loads (run.state m) := by
  induction m with
  | zero => exact run.reached
  | succ m ih =>
    cases hturn : run.turn m with
    | some task =>
      obtain ⟨hcan, hnext⟩ := run.poll m task hturn
      exact hnext ▸ ih.poll hcan
    | none =>
      obtain ⟨world, hsame, hnext⟩ := run.elsewhere m hturn
      exact hnext ▸ ih.elsewhere world hsame

/-- From some moment on nothing changes but the world. -/
theorem exists_stable :
    ∃ m, (∀ m' ≥ m, ∃ world, run.state m' = { run.state m with world }) ∧
      ∀ m', ¬rank lib loads (run.state m') < rank lib loads (run.state m) := by
  obtain ⟨_, ⟨m, rfl⟩, hmin⟩ := wellFounded_lt.has_min
    (Set.range fun m => rank lib loads (run.state m)) ⟨_, 0, rfl⟩
  have hleast : ∀ m', ¬rank lib loads (run.state m') < rank lib loads (run.state m) :=
    fun m' => hmin _ ⟨m', rfl⟩
  refine ⟨m, fun m' hm' => ?_, hleast⟩
  induction m', hm' using Nat.le_induction with
  | base => exact ⟨(run.state m).world, rfl⟩
  | succ m' _ ih =>
    obtain ⟨world, hstate⟩ := ih
    cases hturn : run.turn m' with
    | none =>
      obtain ⟨world', -, hnext⟩ := run.elsewhere m' hturn
      exact ⟨world', by rw [hnext, hstate]⟩
    | some task =>
      obtain ⟨hcan, hnext⟩ := run.poll m' task hturn
      rcases (run.reached_state m').rank_lt hcan with hlt | ⟨heq, -⟩
      · -- The rank does not depend on the world.
        have hrank : rank lib loads (run.state m') = rank lib loads (run.state m) := by
          rw [hstate]
          rfl
        rw [← hnext, hrank] at hlt
        exact absurd hlt (hleast (m' + 1))
      · exact ⟨world, by rw [hnext, heq, hstate]⟩

/-- A poll that goes on being possible is made. -/
theorem exists_turn {m : Nat} {task : Task} (hcan : ∀ m' ≥ m, CanStep (run.state m') task) :
    ∃ m' ≥ m, run.state (m' + 1) = step task (run.state m') := by
  obtain ⟨m', hm', hturn⟩ := run.fair m task hcan
  exact ⟨m', hm', (run.poll m' task hturn).2⟩

/-- Every fair run comes to rest. -/
theorem eventually_rest : ∃ m, ∀ m' ≥ m, AtRest (run.state m') ∧
    ∃ world, run.state m' = { run.state m with world } := by
  obtain ⟨m, hstable, hleast⟩ := run.exists_stable
  have hcan : ∀ m' ≥ m, ∀ task, CanStep (run.state m') task ↔ CanStep (run.state m) task := by
    intro m' hm' task
    obtain ⟨world, hstate⟩ := hstable m' hm'
    rw [hstate]
    rfl
  have hrank : ∀ m' ≥ m, rank lib loads (run.state m') = rank lib loads (run.state m) := by
    intro m' hm'
    obtain ⟨world, hstate⟩ := hstable m' hm'
    rw [hstate]
    rfl
  -- Polls that make the rank smaller do not come any more.
  have hnot : ∀ m' ≥ m, ∀ task, run.state (m' + 1) = step task (run.state m') →
      ¬rank lib loads (step task (run.state m')) < rank lib loads (run.state m') := by
    intro m' hm' task hnext hlt
    rw [← hnext, hrank m' hm'] at hlt
    exact hleast (m' + 1) hlt
  have hended : ¬(run.state m).calls.ended < (run.state m).calls.begun := by
    intro hcalls
    obtain ⟨m', hm', hnext⟩ := run.exists_turn fun m' hm' =>
      (hcan m' hm' .disk).mpr (canStep_disk hcalls)
    refine hnot m' hm' .disk hnext ((run.reached_state m').rank_disk_lt ?_)
    obtain ⟨world, hstate⟩ := hstable m' hm'
    rw [hstate]
    exact hcalls
  have hrest : AtRest (run.state m) := by
    intro task htask
    obtain ⟨m', hm', hnext⟩ := run.exists_turn fun m' hm' => (hcan m' hm' task).mpr htask
    rcases (run.reached_state m').rank_lt ((hcan m' hm' task).mpr htask) with hlt | ⟨-, hcalls⟩
    · exact hnot m' hm' task hnext hlt
    · obtain ⟨world, hstate⟩ := hstable m' hm'
      rw [hstate] at hcalls
      exact hended hcalls
  exact ⟨m, fun m' hm' =>
    ⟨fun task htask => hrest task ((hcan m' hm' task).mp htask), hstable m' hm'⟩⟩

/-- No load is added, and none is begun. -/
theorem map_load_inlinings (m : Nat) :
    (run.state m).inlinings.map Inlining.load = (run.state 0).inlinings.map Inlining.load := by
  induction m with
  | zero => rfl
  | succ m ih =>
    rw [← ih]
    cases hturn : run.turn m with
    | some task =>
      obtain ⟨hcan, hnext⟩ := run.poll m task hturn
      rw [hnext]
      exact (transition_of_canStep (run.reached_state m).coherent.1 hcan).map_load_inlinings
    | none =>
      obtain ⟨world, -, hnext⟩ := run.elsewhere m hturn
      rw [hnext]

end FairRun

/-- From every state there is a fair run. -/
theorem exists_fairRun (h : Reached lib loads r) : ∃ run : FairRun lib loads, run.state 0 = r := by
  obtain ⟨r', hpolls, hrest⟩ := exists_rest h
  induction hpolls using Relation.ReflTransGen.head_induction_on with
  | refl =>
    refine ⟨⟨fun _ => r', fun _ => none, h, nofun, fun _ _ => ?_, fun m task hcan => ?_⟩, rfl⟩
    · exact ⟨r'.world, h.coherent.1.same, rfl⟩
    · exact absurd (hcan m le_rfl) (hrest task)
  | @head r r₁ hpoll _ ih =>
    obtain ⟨task, hcan, rfl⟩ := hpoll
    obtain ⟨run, hrun⟩ := ih (h.poll hcan)
    -- One poll, and then the run from there.
    refine ⟨⟨fun m => m.casesOn r run.state, fun m => m.casesOn (some task) run.turn, h, ?_, ?_, ?_⟩,
      rfl⟩
    · rintro (_ | m) task' hturn
      · cases hturn
        exact ⟨hcan, hrun⟩
      · exact run.poll m task' hturn
    · rintro (_ | m) hturn
      · cases hturn
      · exact run.elsewhere m hturn
    · intro m task' hcan'
      obtain ⟨m', hm', hturn⟩ := run.fair m task' fun m' hm' => hcan' (m' + 1) (by omega)
      exact ⟨m' + 1, by omega, hturn⟩

end StyleBatch.Resolution
