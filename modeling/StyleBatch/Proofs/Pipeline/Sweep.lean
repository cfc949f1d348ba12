import StyleBatch.Proofs.Pipeline.Admissions
import StyleBatch.Proofs.Polling

/-!
# Loads that are polled together

Loads that are submitted together are polled one after the other, and the first poll of a load only
admits it and works on its inlining: the pause before it leaves takes one poll more.  So all loads
have joined the same epoch before the first one leaves, unless an inlining fails or there is no pause.

* `Failed`: an inlining has failed; `Failed.step`.
* `Gathered`: so many loads have joined the first epoch, and nobody has left.
* `Gathered.poll`: the first poll of the next load.
* `PolledTogether`: each load is polled once, in order, before anything else may come.
* `PolledTogether.gathered`: once all loads were polled, all have joined.
-/

namespace StyleBatch.Pipeline

open Notes Resolution

variable {setup : Setup} {loads : List Load} {notes : List Note} {p p' : Pipeline} {i k : Nat}

/-- The state comes about by a run over the loads, all of which are to be translated, with these
notes. -/
structure Came (setup : Setup) (loads : List Load) (notes : List Note) (p : Pipeline) : Prop where
  run : ∃ acts, Run setup acts ∧ setup.after acts = p ∧ submissions acts = loads ∧
    setup.notes acts = notes
  modes : ∀ job ∈ p.jobs, job.mode = .translate

theorem Came.step (h : Came setup loads notes p) {task : Task} (hcan : CanStep p task) :
    Came setup loads (notes ++ (note p task).toList) (step task p) := by
  obtain ⟨⟨acts, hrun, rfl, rfl, rfl⟩, hmodes⟩ := h
  have hpossible : (Act.step task).Possible (setup.after acts) := hcan
  refine ⟨⟨acts ++ [.step task], hrun.act hpossible, after_concat .., ?_, notes_concat ..⟩,
    fun job hjob => ?_⟩
  · rw [submissions_append]
    exact List.append_nil _
  · have hmode : job.mode ∈ (Pipeline.step task (setup.after acts)).jobs.map Job.mode :=
      List.mem_map_of_mem hjob
    rw [(move_of_canStep hcan).modes] at hmode
    obtain ⟨old, hold, heq⟩ := List.mem_map.mp hmode
    rw [← heq, hmodes old hold]

theorem Came.submit (h : Came setup loads notes p) (load : Load) (delay : Nat) :
    Came setup (loads ++ [load]) notes (submit .translate load delay p) := by
  obtain ⟨⟨acts, hrun, rfl, rfl, rfl⟩, hmodes⟩ := h
  have hpossible : (Act.submit .translate load delay).Possible (setup.after acts) := trivial
  refine ⟨⟨acts ++ [.submit .translate load delay], hrun.act hpossible, after_concat .., ?_, ?_⟩,
    fun job hjob => ?_⟩
  · exact submissions_append ..
  · rw [notes_concat]
    exact List.append_nil _
  · rcases List.mem_append.mp hjob with hjob | hjob
    · exact hmodes job hjob
    · rw [List.mem_singleton.mp hjob]

theorem Came.elsewhere (h : Came setup loads notes p) (disk : Disk) (kind : CompilerKind) :
    Came setup loads notes (p.elsewhere disk kind) := by
  obtain ⟨⟨acts, hrun, rfl, rfl, rfl⟩, hmodes⟩ := h
  have hpossible : (Act.elsewhere disk kind).Possible (setup.after acts) := trivial
  refine ⟨⟨acts ++ [.elsewhere disk kind], hrun.act hpossible, after_concat .., ?_, ?_⟩, hmodes⟩
  · rw [submissions_append]
    exact List.append_nil _
  · rw [notes_concat]
    exact List.append_nil _

theorem Came.reached (h : Came setup loads notes p) :
    Reached setup (fun _ => True) loads notes p := by
  obtain ⟨⟨acts, hrun, rfl, rfl, rfl⟩, -⟩ := h
  exact hrun.reached

/-! ## Inlinings that fail -/

/-- An inlining has failed. -/
def Failed (p : Pipeline) : Prop :=
  ∃ i fault, EndsIn p.resolution i (.error fault)

/-- What an inlining has ended with stays. -/
theorem Move.endsIn {task : Task} {note : Option Note} (h : Move p task note p') {o : Outcome}
    (hends : EndsIn p.resolution i o) : EndsIn p'.resolution i o := by
  rcases h.resolution_cases with ⟨t, -, heq⟩ | ⟨_, _, world, -, -, heq⟩ | ⟨world, heq⟩
  · rw [heq]
    exact (onward_step ..).ended hends
  · rw [heq]
    obtain ⟨k, hk⟩ := hends
    exact ⟨k, getElem?_append_of_eq_some hk _⟩
  · rw [heq]
    exact hends

theorem Failed.step (h : Failed p) {task : Task} (hcan : CanStep p task) :
    Failed (step task p) := by
  obtain ⟨i, fault, hends⟩ := h
  exact ⟨i, fault, (move_of_canStep hcan).endsIn hends⟩

/-! ## Polling a load -/

/-- A job waits for tasks of the resolution only. -/
theorem resolution_of_waiting {on : List Task} (h : standing p (.job i) = .waiting on) :
    ∀ task ∈ on, ∃ t, task = .resolution t := by
  rw [standing] at h
  split at h
  · rename_i job _
    rw [standingOfJob] at h
    split at h
    · cases h
    · cases h
    · split at h
      · cases h
      · cases h
        exact fun task htask => ⟨_, List.mem_singleton.mp htask⟩
    · cases h
    · cases h
    · rename_i d _
      have hnot : ∀ x : Invocation, (x.standing : Standing Task) ≠ .waiting on := by
        rintro ⟨source, address, phase⟩ hx
        cases phase with
        | queued | opening | filling | settled => cases hx
        | compiling call =>
          obtain ⟨csource, pauses, reply⟩ := call
          cases pauses <;> cases hx
        | makingDirectory pauses | writing pauses => cases pauses <;> cases hx
      have hnever : (d.standing : Standing Task) ≠ .waiting on := by
        intro hwaiting
        rw [Departure.standing] at hwaiting
        split at hwaiting
        · cases hwaiting
        · split at hwaiting
          · cases hwaiting
          · exact hnot _ hwaiting
        · cases hwaiting
      split at h
      · cases h
      · exact absurd h hnever
    · cases h
  · cases h

/-- Tasks of the resolution wait for each other only. -/
theorem closed_resolution : machine.Closed fun task => ∃ t, task = .resolution t := by
  rintro p _ on ⟨t, rfl⟩ h task htask
  change lift (Resolution.standing p.resolution t) = .waiting on at h
  cases hstanding : Resolution.standing p.resolution t with
  | waiting on' =>
    rw [hstanding] at h
    cases h
    obtain ⟨t', -, rfl⟩ := List.mem_map.mp htask
    exact ⟨t', rfl⟩
  | _ =>
    rw [hstanding] at h
    cases h

/-- The load is being inlined, or pauses before it leaves. -/
def JobPhase.Inside : JobPhase → Prop
  | .resolving _ => True
  | .settling _ _ => True
  | _ => False

/-- The pause before leaving has not begun to run out. -/
def JobPhase.Fresh : JobPhase → Prop
  | .resolving _ => True
  | .settling pauses _ => 0 < pauses
  | _ => False

/-- The notes of loads that have joined the first epoch. -/
abbrev joinedFirst (k : Nat) : List Note :=
  (List.range k).map (.joined · 1)

/-- The first `k` loads have joined the first epoch and nobody has left; the others wait to be
admitted. -/
structure Gathered (setup : Setup) (loads : List Load) (k : Nat) (p : Pipeline) : Prop where
  came : Came setup loads (joinedFirst k) p
  inside : ∀ i job, p.jobs[i]? = some job → i < k → job.phase.Inside
  outside : ∀ i job, p.jobs[i]? = some job → k ≤ i → job.phase = .delayed 0

/-! ## The first poll of a load -/

theorem joinedFirst_succ (k : Nat) : joinedFirst (k + 1) = joinedFirst k ++ [.joined k 1] := by
  rw [joinedFirst, List.range_succ, List.map_append]
  rfl

theorem joiners_joinedFirst (k : Nat) : joiners (joinedFirst k) = List.range k := by
  rw [joiners, List.filterMap_map]
  exact List.filterMap_some

theorem leavers_joinedFirst (k : Nat) : leavers (joinedFirst k) = [] := by
  rw [leavers, List.filterMap_map]
  exact List.filterMap_eq_nil_iff.mpr fun _ _ => rfl

/-- Once all loads have joined, nobody joins any more. -/
theorem Came.of_joined {rest : List Note}
    (h : Came setup loads (joinedFirst loads.length ++ rest) p) (hrest : joiners rest = [])
    {task : Task} (hcan : CanStep p task) : ∃ rest', joiners rest' = [] ∧
      Came setup loads (joinedFirst loads.length ++ rest') (Pipeline.step task p) := by
  have hstep := h.step hcan
  have hjoiners : ∀ more, joiners (joinedFirst loads.length ++ more) =
      List.range loads.length ++ joiners more := by
    intro more
    rw [joiners_append, joiners_joinedFirst]
  refine ⟨rest ++ (note p task).toList, ?_, by rw [← List.append_assoc]; exact hstep⟩
  rw [joiners_append, hrest, List.nil_append]
  by_contra hne
  obtain ⟨j, hj⟩ := List.exists_mem_of_ne_nil _ hne
  obtain ⟨e, hnote⟩ := mem_joiners.mp hj
  have hledger := hstep.reached.chronicle.ledger
  -- All jobs have joined already, and nobody joins twice.
  have hlt : j < loads.length := by
    rw [← hstep.reached.linked.length_jobs]
    exact hstep.reached.chronicle.subject_lt (List.mem_append_right _ hnote)
  have hnodup := hledger.nodup_joiners
  rw [List.append_assoc, hjoiners, joiners_append, hrest, List.nil_append] at hnodup
  exact (List.nodup_append.mp hnodup).2.2 j (List.mem_range.mpr hlt) j hj rfl

/-- The next load joins the first epoch, too. -/
theorem Gathered.epoch (h : Gathered setup loads k p) : p.batching.batch.join.epoch = 1 := by
  have hledger := h.came.reached.chronicle.ledger
  have hcount := hledger.outstanding_eq
  rw [joinCount, joiners_joinedFirst, leavers_joinedFirst, List.length_range, List.length_nil,
    Nat.sub_zero] at hcount
  rw [Ledger.epoch_join, hcount, hledger.epoch]
  cases k with
  | zero => rfl
  | succ k => rw [if_neg (Nat.succ_ne_zero k), joinedFirst_succ, epoch_joined]

/-- No load is deferred where that is not asked for. -/
theorem Came.not_deferred (h : Came setup loads notes p)
    (hdefer : setup.config.batch.deferFirstLoad = false) (i : Nat) : .deferred i ∉ notes := by
  obtain ⟨⟨acts, hrun, -, -, rfl⟩, -⟩ := h
  intro hi
  have hfirst := hrun.firstDeferred.1
  have hadmission : .deferred i ∈ admissions (setup.notes acts) := List.mem_filter.mpr ⟨hi, rfl⟩
  generalize admissions (setup.notes acts) = admitted at hfirst hadmission
  cases admitted with
  | nil => cases hadmission
  | cons first rest =>
    rw [hdefer] at hfirst
    rcases List.mem_cons.mp hadmission with hi | hi
    · exact Bool.false_ne_true (hfirst.1.mp ⟨i, hi.symm⟩)
    · exact hfirst.2 i hi

/-- Polling the resolution gathers nobody and loses nobody. -/
theorem Gathered.resolution (h : Gathered setup loads k p) {t : Resolution.Task}
    (hcan : CanStep p (.resolution t)) : Gathered setup loads k (step (.resolution t) p) := by
  have hcame := h.came.step hcan
  rw [note, Option.toList_none, List.append_nil] at hcame
  exact ⟨hcame, h.inside, h.outside⟩

/-- A load that is inside joins the ones that were gathered, and nobody else moves. -/
theorem Gathered.with (hcame : Came setup loads (joinedFirst (k + 1)) p')
    (hinside : ∀ i job, p.jobs[i]? = some job → i < k → job.phase.Inside)
    (houtside : ∀ i job, p.jobs[i]? = some job → k < i → job.phase = .delayed 0)
    (hothers : ∀ i, i ≠ k → p'.jobs[i]? = p.jobs[i]?) {job : Job} (hk : p'.jobs[k]? = some job)
    (hjob : job.phase.Inside) : Gathered setup loads (k + 1) p' where
  came := hcame
  inside i job' hi hik := by
    by_cases hki : i = k
    · subst hki
      rw [hk] at hi
      cases hi
      exact hjob
    · rw [hothers i hki] at hi
      exact hinside i job' hi (by omega)
  outside i job' hi hik := by
    rw [hothers i (by omega)] at hi
    exact houtside i job' hi (by omega)

/-- The next load is admitted. -/
theorem Gathered.admit (h : Gathered setup loads k p)
    (hdefer : setup.config.batch.deferFirstLoad = false) {job : Job} (hk : p.jobs[k]? = some job) :
    standing p (.job k) = .ready ∧ Gathered setup loads (k + 1) (step (.job k) p) ∧
      ∃ job, (step (.job k) p).jobs[k]? = some job ∧ job.phase.Fresh := by
  have hmode := h.came.modes job (List.mem_of_getElem? hk)
  have hphase := h.outside k job hk le_rfl
  have hready : standing p (.job k) = .ready := by
    simp only [standing, hk, standingOfJob, hphase]
  have hcan : CanStep p (.job k) := Or.inl hready
  have hcame := h.came.step hcan
  have hmove := move_of_canStep hcan
  have hother : ∀ i, i ≠ k → (step (.job k) p).jobs[i]? = p.jobs[i]? :=
    fun i hi => getElem?_step_of_ne p (by simpa using Ne.symm hi)
  -- It joins: it is not deferred, and everything else comes later.
  have hjoins : note p (.job k) = some (.joined k 1) ∧
      ∃ n, (step (.job k) p).jobs[k]? = some { job with phase := .resolving n } := by
    have hnot := hcame.not_deferred hdefer k
    generalize step (.job k) p = p' at hmove hnot ⊢
    generalize note p (.job k) = x at hmove hnot ⊢
    cases hmove with
    | @joined _ job' world hk' =>
      rw [hk] at hk'
      cases hk'
      rw [h.epoch]
      refine ⟨rfl, p.resolution.inlinings.length, ?_⟩
      rw [beginResolving, getElem?_setJob, if_pos rfl]
      exact congrArg _ hk
    | deferred => simp at hnot
    | waited hk' hwaits =>
      rw [hk] at hk'
      cases hk'
      rw [hphase] at hwaits
      cases hwaits
    | begun hk' _ hmode' =>
      rw [hk] at hk'
      cases hk'
      rw [hmode] at hmode'
      cases hmode'
    | inlined hk' hphase' | resolved _ hk' hphase' | failed hk' hphase' | finished hk' hphase'
    | left hk' hphase' | compiling hk' hphase' | compiled hk' hphase' | answered hk' hphase' =>
      rw [hk] at hk'
      cases hk'
      rw [hphase] at hphase'
      cases hphase'
  obtain ⟨hnote, n, hnew⟩ := hjoins
  rw [hnote, Option.toList_some, ← joinedFirst_succ] at hcame
  refine ⟨hready, .with hcame h.inside ?_ hother hnew trivial, _, hnew, trivial⟩
  exact fun i job' hi hik => h.outside i job' hi hik.le

/-- A load that was admitted goes on, and does not leave as long as it has a pause to go. -/
theorem Gathered.goOn (h : Gathered setup loads (k + 1) p)
    (hticks : 0 < setup.config.batch.settleTicks) {job : Job} (hk : p.jobs[k]? = some job)
    (hfresh : job.phase.Fresh) (hcan : CanStep p (.job k)) : Failed (step (.job k) p) ∨
      Gathered setup loads (k + 1) (step (.job k) p) ∧
        (standing p (.job k) = .ready →
          ∃ job, (step (.job k) p).jobs[k]? = some job ∧ job.phase.Fresh) := by
  have hcame := h.came.step hcan
  have hmode := h.came.modes job (List.mem_of_getElem? hk)
  have hother : ∀ i, i ≠ k → (step (.job k) p).jobs[i]? = p.jobs[i]? :=
    fun i hi => getElem?_step_of_ne p (by simpa using Ne.symm hi)
  -- Nothing is noted when it goes on inside.
  have hkept : ∀ phase : JobPhase, phase.Inside → note p (.job k) = none →
      (step (.job k) p).jobs[k]? = some { job with phase } →
      Gathered setup loads (k + 1) (step (.job k) p) := by
    intro phase hinside hnote hnew
    rw [hnote, Option.toList_none, List.append_nil] at hcame
    exact .with hcame (fun i job' hi hik => h.inside i job' hi (by omega)) h.outside hother hnew
      hinside
  have hset : ∀ phase, (setJob p k phase).jobs[k]? = some { job with phase } := by
    intro phase
    rw [getElem?_setJob, if_pos rfl]
    exact congrArg _ hk
  have hstanding : standing p (.job k) = standingOfJob p job := by
    rw [standing, hk]
  cases hphase : job.phase with
  | resolving n =>
    cases ho : p.resolution.inliningOutcome? n with
    | none =>
      have hwaiting : machine.standing p (.job k) =
          .waiting [.resolution (.source (.inlining n))] := by
        change standing p (.job k) = _
        rw [hstanding, standingOfJob, hphase]
        simp only [ho]
      rcases hcan with hcan | hcan <;> rw [hwaiting] at hcan <;> cases hcan
    | some o =>
      cases o with
      | error fault =>
        have hworks := (h.came.reached.linked.works k job hk).2
        rw [hphase] at hworks
        obtain ⟨phase, hn⟩ := hworks
        exact Or.inl (Failed.step ⟨k, fault, ended_of_inliningOutcome? hn ho⟩ hcan)
      | ok source =>
        have hsettings : p.batching.settings = setup.config.batch := by
          obtain ⟨acts, hrun, rfl, -, -⟩ := h.came.run
          exact hrun.equipped.settings
        have hstep : step (.job k) p =
            setJob p k (.settling setup.config.batch.settleTicks source) := by
          simp only [step, hk, stepJob, hphase, ho, hmode, hsettings]
        have hnew := hstep ▸ hset (.settling setup.config.batch.settleTicks source)
        have hnote : note p (.job k) = none := by
          simp only [note, hk, Option.bind_some, noteOfJob, hphase]
        exact Or.inr ⟨hkept (.settling setup.config.batch.settleTicks source) trivial hnote hnew,
          fun _ => ⟨_, hnew, hticks⟩⟩
  | settling pauses source =>
    rw [hphase] at hfresh
    obtain ⟨pauses, rfl⟩ := Nat.exists_eq_succ_of_ne_zero (Nat.pos_iff_ne_zero.mp hfresh)
    have hstep : step (.job k) p = setJob p k (.settling pauses source) := by
      simp only [step, hk, stepJob, hphase]
    have hnew := hstep ▸ hset (.settling pauses source)
    have hnote : note p (.job k) = none := by
      simp only [note, hk, Option.bind_some, noteOfJob, hphase]
    refine Or.inr ⟨hkept (.settling pauses source) trivial hnote hnew, fun hready => ?_⟩
    rw [hstanding, standingOfJob, hphase] at hready
    cases hready
  | _ =>
    rw [hphase] at hfresh
    exact hfresh.elim

/-- The first poll of the next load admits it, and goes on with it until it has to wait. -/
theorem Gathered.poll {t : Turn Pipeline Task} (h : Gathered setup loads k t.state)
    (hdefer : setup.config.batch.deferFirstLoad = false)
    (hticks : 0 < setup.config.batch.settleTicks) (hk : k < t.state.jobs.length) (fuel : Nat)
    (busy : List Task) :
    Failed (machine.poll (fuel + 1) busy (.job k) t).state ∨
      Gathered setup loads (k + 1) (machine.poll (fuel + 1) busy (.job k) t).state := by
  obtain ⟨hready, hadmitted⟩ := h.admit hdefer (List.getElem?_eq_getElem hk)
  rw [Machine.poll_of_ready hready]
  have hwaits : ∀ s on, machine.standing s (.job k) = .waiting on →
      ∀ task ∈ on, ∃ t, task = .resolution t :=
    fun s on => resolution_of_waiting
  have hends := Machine.poll_ends (P := fun q => Failed q ∨ Gathered setup loads (k + 1) q ∧
      ∃ job, q.jobs[k]? = some job ∧ job.phase.Fresh)
    (Q := fun q => Failed q ∨ Gathered setup loads (k + 1) q) closed_resolution ?others hwaits
    ?ready ?asleep fuel busy (machine.advance (.job k) t) (Or.inr hadmitted)
  case others =>
    rintro s _ hs ⟨t, rfl⟩ hcan
    rcases hs with hs | ⟨hs, hfresh⟩
    · exact Or.inl (hs.step hcan)
    · exact Or.inr ⟨hs.resolution hcan, hfresh⟩
  case ready =>
    intro s hs hready
    have hcan : CanStep s (.job k) := Or.inl hready
    rcases hs with hs | ⟨hs, job, hk, hfresh⟩
    · exact Or.inl (hs.step hcan)
    · rcases hs.goOn hticks hk hfresh hcan with hfailed | ⟨hgathered, hstays⟩
      · exact Or.inl hfailed
      · exact Or.inr ⟨hgathered, hstays hready⟩
  case asleep =>
    intro s hs hasleep
    have hcan : CanStep s (.job k) := Or.inr hasleep
    rcases hs with hs | ⟨hs, job, hk, hfresh⟩
    · exact Or.inl (hs.step hcan)
    · exact (hs.goOn hticks hk hfresh hcan).imp_right And.left
  rcases hends with hends | hends
  · exact hends.imp_right And.left
  · exact hends

/-! ## All loads at once -/

/-- Loads that were submitted together wait to be admitted. -/
theorem gathered_submitted (setup : Setup) (loads : List Load) :
    Gathered setup loads 0 (submitted setup (loads.map (·, 0))) := by
  have hsubmitted : Came setup loads [] (submitted setup (loads.map (·, 0))) ∧
      ∀ job ∈ (submitted setup (loads.map (·, 0))).jobs, job.phase = .delayed 0 := by
    induction loads using List.reverseRecOn with
    | nil =>
      have hstart : submitted setup (([] : List Load).map (·, 0)) = setup.start := rfl
      have hnobody : ∀ job, job ∉ setup.start.jobs := fun _ => List.not_mem_nil
      rw [hstart]
      refine ⟨⟨⟨[], .start, rfl, rfl, rfl⟩, ?_⟩, ?_⟩
      · exact fun job hjob => absurd hjob (hnobody job)
      · exact fun job hjob => absurd hjob (hnobody job)
    | append_singleton loads load ih =>
      obtain ⟨hcame, hjobs⟩ := ih
      rw [submitted, List.map_append, List.foldl_append]
      refine ⟨hcame.submit load 0, fun job hjob => ?_⟩
      rcases List.mem_append.mp hjob with hjob | hjob
      · exact hjobs job hjob
      · rw [List.mem_singleton.mp hjob]
  exact ⟨hsubmitted.1, fun _ _ _ h => absurd h (Nat.not_lt_zero _),
    fun i job hi _ => hsubmitted.2 job (List.mem_of_getElem? hi)⟩

/-- The states that come about when loads are submitted together and polled from one task.  First each
of them is polled once, in their order, and `k` of them were; the resolution may move on its own and
others may change the disk and the compiler.  Then everything moves in any order. -/
inductive PolledTogether (setup : Setup) (loads : List Load) : Nat → Pipeline → Prop
  | submitted : PolledTogether setup loads 0 (submitted setup (loads.map (·, 0)))
  | resolution {k : Nat} {p : Pipeline} {t : Resolution.Task} : PolledTogether setup loads k p →
      CanStep p (.resolution t) → PolledTogether setup loads k (step (.resolution t) p)
  | elsewhere {k : Nat} {p : Pipeline} (disk : Disk) (kind : CompilerKind) :
      PolledTogether setup loads k p → PolledTogether setup loads k (p.elsewhere disk kind)
  | poll {k : Nat} {t : Turn Pipeline Task} (fuel : Nat) (busy : List Task) :
      PolledTogether setup loads k t.state → k < loads.length →
      PolledTogether setup loads (k + 1) (machine.poll (fuel + 1) busy (.job k) t).state
  | later {p : Pipeline} {task : Task} : PolledTogether setup loads loads.length p →
      CanStep p task → PolledTogether setup loads loads.length (step task p)

/-- Loads that are submitted and swept until nothing moves are polled together. -/
theorem polledTogether_settle (setup : Setup) (loads : List Load) (fuel rounds : Nat) :
    PolledTogether setup loads loads.length (machine.settle (fuel + 1)
      (.resolution .disk :: (List.range loads.length).map Task.job) (rounds + 1)
      (submitted setup (loads.map (·, 0)))) := by
  refine Machine.settle_keeps_after_sweep (fun _ _ hp hcan => hp.later hcan) _ _ _ _ ?_
  have hdisk : PolledTogether setup loads 0 (machine.poll (fuel + 1) [.resolution .disk]
      (.resolution .disk) ⟨submitted setup (loads.map (·, 0)), []⟩).state := by
    refine Machine.poll_keeps_within closed_resolution ?_ (fuel + 1) [.resolution .disk]
      ⟨Resolution.Task.disk, rfl⟩ ⟨submitted setup (loads.map (·, 0)), []⟩ .submitted
    rintro p _ hp ⟨t, rfl⟩ hcan
    exact hp.resolution hcan
  rw [Machine.sweep, List.foldl_cons]
  generalize machine.poll (fuel + 1) [.resolution .disk] (.resolution .disk)
    ⟨submitted setup (loads.map (·, 0)), []⟩ = t at hdisk
  have hpolled : ∀ k ≤ loads.length,
      PolledTogether setup loads k (((List.range k).map Task.job).foldl
        (fun t task => machine.poll (fuel + 1) [task] task t) t).state := by
    intro k hk
    induction k with
    | zero => exact hdisk
    | succ k ih =>
      rw [List.range_succ, List.map_append, List.foldl_append, List.map_singleton, List.foldl_cons,
        List.foldl_nil]
      exact (ih (by omega)).poll fuel _ (by omega)
  exact hpolled loads.length le_rfl

/-- The states come about by a run. -/
theorem PolledTogether.came (h : PolledTogether setup loads k p) :
    ∃ notes, Came setup loads notes p := by
  induction h with
  | submitted => exact ⟨_, (gathered_submitted setup loads).came⟩
  | resolution _ hcan ih | later _ hcan ih =>
    obtain ⟨notes, hcame⟩ := ih
    exact ⟨_, hcame.step hcan⟩
  | elsewhere disk kind _ ih =>
    obtain ⟨notes, hcame⟩ := ih
    exact ⟨notes, hcame.elsewhere disk kind⟩
  | poll fuel busy _ _ ih =>
    refine Machine.poll_keeps (P := fun p => ∃ notes, Came setup loads notes p) ?_ _ _ _ _ ih
    rintro p task ⟨notes, hcame⟩ hcan
    exact ⟨_, hcame.step hcan⟩

/-- Loads that were polled once have joined, and only when all of them have, one may leave. -/
theorem PolledTogether.gathered (h : PolledTogether setup loads k p)
    (hdefer : setup.config.batch.deferFirstLoad = false)
    (hticks : 0 < setup.config.batch.settleTicks) : Failed p ∨ Gathered setup loads k p ∨
      k = loads.length ∧ ∃ rest, joiners rest = [] ∧
        Came setup loads (joinedFirst loads.length ++ rest) p := by
  induction h with
  | submitted => exact Or.inr (Or.inl (gathered_submitted setup loads))
  | resolution _ hcan ih =>
    rcases ih with hfailed | hgathered | ⟨rfl, rest, hrest, hcame⟩
    · exact Or.inl (hfailed.step hcan)
    · exact Or.inr (Or.inl (hgathered.resolution hcan))
    · exact Or.inr (Or.inr ⟨rfl, hcame.of_joined hrest hcan⟩)
  | elsewhere disk kind _ ih =>
    rcases ih with hfailed | hgathered | ⟨rfl, rest, hrest, hcame⟩
    · exact Or.inl hfailed
    · exact Or.inr (Or.inl ⟨hgathered.came.elsewhere disk kind, hgathered.inside,
        hgathered.outside⟩)
    · exact Or.inr (Or.inr ⟨rfl, rest, hrest, hcame.elsewhere disk kind⟩)
  | @poll k t fuel busy _ hk ih =>
    rcases ih with hfailed | hgathered | ⟨rfl, -⟩
    · exact Or.inl (Machine.poll_keeps (fun _ _ hp hcan => hp.step hcan) _ _ _ _ hfailed)
    · have hlength := hgathered.came.reached.linked.length_jobs
      rcases hgathered.poll hdefer hticks (by omega) fuel busy with hfailed | hgathered
      · exact Or.inl hfailed
      · exact Or.inr (Or.inl hgathered)
    · exact absurd hk (Nat.lt_irrefl _)
  | later _ hcan ih =>
    rcases ih with hfailed | hgathered | ⟨-, rest, hrest, hcame⟩
    · exact Or.inl (hfailed.step hcan)
    · have hcame : Came setup loads (joinedFirst loads.length ++ []) _ :=
        (List.append_nil (joinedFirst loads.length)).symm ▸ hgathered.came
      exact Or.inr (Or.inr ⟨rfl, hcame.of_joined rfl hcan⟩)
    · exact Or.inr (Or.inr ⟨rfl, hcame.of_joined hrest hcan⟩)

end StyleBatch.Pipeline
