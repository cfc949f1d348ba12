import StyleBatch.Proofs.Pipeline.Given

/-!
# Who is admitted

Where the first load is deferred, it is the first one that is admitted at all, and the only one.  It
is answered with the empty text at once; it joins no epoch, is never inlined and leaves the counts
and the buffer of the batch as they are.

* `Notes.FirstDeferred`, `Run.firstDeferred`: the first admission, and no other one.
* `Run.deferred`: all that becomes of a deferred load.
-/

namespace StyleBatch

open Notes

namespace Notes

/-- What was noted of admissions. -/
def admissions (notes : List Note) : List Note :=
  notes.filter Note.isAdmission

/-- The first admission is deferred if that is asked for, and no later one is. -/
def FirstDeferred (asked : Bool) : List Note → Prop
  | [] => True
  | first :: rest => ((∃ i, first = .deferred i) ↔ asked = true) ∧ ∀ i, .deferred i ∉ rest

theorem admissions_append (notes more : List Note) :
    admissions (notes ++ more) = admissions notes ++ admissions more :=
  List.filter_append ..

theorem FirstDeferred.append {asked : Bool} {first x : Note} {rest : List Note}
    (h : FirstDeferred asked (first :: rest)) (hx : ∀ i, x ≠ .deferred i) :
    FirstDeferred asked (first :: rest ++ [x]) := by
  refine ⟨h.1, fun i hi => ?_⟩
  rcases List.mem_append.mp hi with hi | hi
  · exact h.2 i hi
  · exact hx i (List.mem_singleton.mp hi).symm

end Notes

theorem Departure.Goes.bootstrapped {d : Departure} {b : Batching} {world : World}
    {out : Departure × Batching × World} (h : Goes d b world out) :
    out.2.1.batch.bootstrapped = b.batch.bootstrapped := by
  cases h with
  | left => exact bootstrapped_leave _ _
  | closed _ _ _ hbootstrapped | skipped _ _ _ hbootstrapped => exact hbootstrapped
  | invoked | failed | compiled => rfl

theorem Invocation.Does.admissions {i : Nat} {w : Workshop} {world : World} {x : Invocation}
    {note : Option Note} {storing : Option Storing} {out : Invocation × Workshop × World}
    (h : Does i w world x note storing out) : admissions note.toList = [] := by
  cases h <;> rfl

theorem Departure.Goes.admissions {d : Departure} {b : Batching} {world : World}
    {out : Departure × Batching × World} (h : Goes d b world out) (i : Nat) :
    admissions (d.note i b).toList = [] := by
  cases h with
  | left hphase | closed hphase | skipped hphase =>
    rw [note, hphase]
    rfl
  | @invoked x hphase hx =>
    rw [note, hphase]
    exact (x.does_step i b.workshop world hx).admissions
  | failed hphase hx | compiled hphase hx =>
    simp only [note, hphase, Invocation.note, hx]
    rfl

/-- Whether the next load is deferred. -/
def Batching.defers (b : Batching) : Bool :=
  b.settings.deferFirstLoad && !b.batch.bootstrapped && !b.batch.hasCompiled

namespace Pipeline

variable {setup : Setup} {acts : List Act} {p p' : Pipeline} {i : Nat}

/-- A load is deferred as asked for, and otherwise joins. -/
theorem register_eq (settings : BatchSettings) (address : Text) (b : Batch) (world : World) :
    if settings.deferFirstLoad && !b.bootstrapped && !b.hasCompiled then
      (b.register settings address world).1 = .deferred ∧
        (b.register settings address world).2.1.bootstrapped = true
    else ∃ e, (b.register settings address world).1 = .joined e ∧
      (b.register settings address world).2.1.bootstrapped = b.bootstrapped := by
  rw [Batch.register]
  split
  · exact ⟨rfl, rfl⟩
  · refine ⟨_, rfl, ?_⟩
    dsimp only
    split <;> rfl

/-- What a step that is apart from all compiles admits. -/
inductive Admits (p : Pipeline) (task : Task) : Prop
  | nobody : note p task = none →
      (step task p).batching.batch.bootstrapped = p.batching.batch.bootstrapped → Admits p task
  | deferred (i : Nat) : note p task = some (.deferred i) → p.batching.defers = true →
      (step task p).batching.batch.bootstrapped = true → Admits p task
  | joined (i e : Nat) : note p task = some (.joined i e) → p.batching.defers = false →
      (step task p).batching.batch.bootstrapped = p.batching.batch.bootstrapped → Admits p task

theorem Apart.admits {task : Task} (h : Apart p task) : Admits p task := by
  cases task with
  | resolution t => exact .nobody rfl rfl
  | job i =>
    cases hi : p.jobs[i]? with
    | none => exact .nobody (by simp [Pipeline.note, hi]) (by simp [step, hi])
    | some job =>
      have hnote : Pipeline.note p (.job i) = noteOfJob p i job := by
        rw [Pipeline.note, hi, Option.bind_some]
      have hstep : step (.job i) p = stepJob p i job := by rw [step, hi]
      have hquiet : noteOfJob p i job = none →
          (stepJob p i job).batching.batch.bootstrapped = p.batching.batch.bootstrapped →
          Admits p (.job i) :=
        fun hnone hsame => .nobody (hnote.trans hnone) (by rw [hstep, hsame])
      cases hphase : job.phase with
      | delayed pauses =>
        cases pauses with
        | succ pauses =>
          exact hquiet (by simp [noteOfJob, hphase]) (by simp [stepJob, hphase, setJob])
        | zero =>
          cases hmode : job.mode with
          | inline =>
            exact hquiet (by simp [noteOfJob, hphase, hmode])
              (by simp [stepJob, hphase, hmode, beginResolving, setJob])
          | translate =>
            have hregister := register_eq p.batching.settings (address p job) p.batching.batch
              p.resolution.world
            simp only [noteOfJob, hphase, hmode] at hnote
            simp only [stepJob, hphase, hmode] at hstep
            generalize p.batching.batch.register p.batching.settings (address p job)
              p.resolution.world = admission at hregister hnote hstep
            obtain ⟨admission, batch, world⟩ := admission
            split at hregister
            · rename_i hdefers
              obtain ⟨rfl, hbootstrapped⟩ := hregister
              exact .deferred i hnote hdefers (by rw [hstep]; exact hbootstrapped)
            · rename_i hdefers
              obtain ⟨e, rfl, hbootstrapped⟩ := hregister
              exact .joined i e hnote (Bool.eq_false_iff.mpr hdefers)
                (by rw [hstep]; exact hbootstrapped)
      | resolving k =>
        refine hquiet (by simp [noteOfJob, hphase]) ?_
        rw [stepJob, hphase]
        dsimp only
        split
        · rfl
        · split <;> rfl
      | settling pauses source =>
        refine hquiet (by simp [noteOfJob, hphase]) ?_
        cases pauses <;> simp [stepJob, hphase, setJob, beginLeaving]
      | leaving d =>
        obtain ⟨text, hd⟩ := Option.ne_none_iff_exists'.mp (h.answered i job d rfl hi hphase)
        have hsettled := Departure.result?_eq_some.mp hd
        exact hquiet (by simp [noteOfJob, hphase, Departure.note, hsettled])
          (by simp [stepJob, hphase, hd, setJob])
      | settled o =>
        exact hquiet (by simp [noteOfJob, hphase]) (by simp [stepJob, hphase])

/-- Nothing is noted about a load before it is admitted. -/
theorem Chronicle.admissions_ne_nil {notes : List Note} (h : Chronicle notes p) {x : Note}
    (hx : x ∈ notes) : admissions notes ≠ [] := by
  have hown : x ∈ about x.subject notes := mem_about.mpr ⟨hx, rfl⟩
  have hfirst : ∀ {first rest}, about x.subject notes = first :: rest →
      first.isAdmission = true → admissions notes ≠ [] := by
    intro first rest heq hfirst
    exact List.ne_nil_of_mem
      (List.mem_filter.mpr ⟨mem_of_about heq List.mem_cons_self, hfirst⟩)
  cases hi : p.jobs[x.subject]? with
  | none =>
    rw [h.absent _ (List.getElem?_eq_none_iff.mp hi)] at hown
    cases hown
  | some job =>
    have hcourse := h.job _ job hi
    rw [Job.Course] at hcourse
    split at hcourse
    · rw [hcourse] at hown
      cases hown
    · split at hcourse
      · rw [hcourse] at hown
        cases hown
      · obtain ⟨e, he⟩ := hcourse
        exact hfirst he rfl
    · obtain ⟨e, he⟩ := hcourse
      exact hfirst he rfl
    · obtain ⟨e, rest, he, -⟩ := hcourse
      exact hfirst he rfl
    · rcases hcourse with hnone | hdeferred | ⟨e, d, text, rest, -, he, -⟩
      · rw [hnone] at hown
        cases hown
      · exact hfirst hdeferred rfl
      · exact hfirst he rfl

/-- Something was compiled only after a load was admitted. -/
theorem Run.admissions_of_hasCompiled (h : Run setup acts)
    (hcompiled : (setup.after acts).batching.batch.hasCompiled = true) :
    admissions (setup.notes acts) ≠ [] := by
  have hchronicle := h.reached.chronicle
  cases hauthoritative : setup.config.environment.authoritative with
  | true =>
    obtain ⟨i, source, t, d, hnoted, -⟩ := h.given_of_hasCompiled hauthoritative hcompiled
    exact hchronicle.admissions_ne_nil hnoted.1
  | false =>
    obtain ⟨⟨i, batch⟩, hc⟩ :=
      List.exists_mem_of_ne_nil _ ((h.booked.hasCompiled hauthoritative).mp hcompiled)
    obtain ⟨c, hleft, -⟩ := mem_closings.mp hc
    exact hchronicle.admissions_ne_nil hleft

/-- A load is deferred if that is asked for and none was admitted before. -/
theorem Run.defers_iff (h : Run setup acts) (hflag : setup.config.batch.deferFirstLoad = true →
      ((setup.after acts).batching.batch.bootstrapped = true ↔ admissions (setup.notes acts) ≠ [])) :
    (setup.after acts).batching.defers = true ↔
      setup.config.batch.deferFirstLoad = true ∧ admissions (setup.notes acts) = [] := by
  rw [Batching.defers, h.equipped.settings, Bool.and_eq_true, Bool.and_eq_true, and_assoc]
  refine and_congr_right fun hdefer => ?_
  have hbootstrapped := hflag hdefer
  have hcompiled := h.admissions_of_hasCompiled
  cases hb : (setup.after acts).batching.batch.bootstrapped with
  | true => simpa using hbootstrapped.mp hb
  | false =>
    simp only [hb, Bool.false_eq_true, ne_eq, false_iff, not_not] at hbootstrapped
    cases hc : (setup.after acts).batching.batch.hasCompiled with
    | true => exact absurd hbootstrapped (hcompiled hc)
    | false => simp [hbootstrapped]

/-- The first admission is deferred if that is asked for, and no later one is; the batch knows
whether there was one. -/
theorem Run.firstDeferred (h : Run setup acts) :
    FirstDeferred setup.config.batch.deferFirstLoad (admissions (setup.notes acts)) ∧
      (setup.config.batch.deferFirstLoad = true →
        ((setup.after acts).batching.batch.bootstrapped = true ↔
          admissions (setup.notes acts) ≠ [])) := by
  induction h with
  | start => exact ⟨trivial, fun _ => iff_of_false Bool.false_ne_true fun h => h rfl⟩
  | @act acts act hrun hpossible ih =>
    rw [after_concat, notes_concat, admissions_append]
    have hquiet : admissions (act.read note (setup.after acts)) = [] →
        (act.apply (setup.after acts)).batching.batch.bootstrapped =
          (setup.after acts).batching.batch.bootstrapped →
        FirstDeferred setup.config.batch.deferFirstLoad
            (admissions (setup.notes acts) ++ admissions (act.read note (setup.after acts))) ∧
          (setup.config.batch.deferFirstLoad = true →
            ((act.apply (setup.after acts)).batching.batch.bootstrapped = true ↔
              admissions (setup.notes acts) ++ admissions (act.read note (setup.after acts)) ≠
                [])) := by
      intro hnone hsame
      rw [hnone, hsame, List.append_nil]
      exact ih
    obtain ⟨hfirst, hflag⟩ := ih
    cases act with
    | submit | elsewhere => exact hquiet rfl rfl
    | step task =>
      rcases leaving_or_apart (setup.after acts) task with ⟨i, d, rfl, hleaving⟩ | hapart
      · obtain ⟨hstep, hnote, -⟩ := step_of_leaving hleaving
        have hgoes := d.goes_step (setup.after acts).batching
          (setup.after acts).resolution.world hleaving.2
        refine hquiet ?_ ?_
        · rw [Act.read, hnote]
          exact hgoes.admissions i
        · rw [Act.apply, hstep]
          exact hgoes.bootstrapped
      · have hasked := hrun.defers_iff hflag
        rcases hapart.admits with ⟨hnote, hsame⟩ | ⟨i, hnote, hdefers, hset⟩ |
          ⟨i, e, hnote, hdefers, hsame⟩
        · exact hquiet (by rw [Act.read, hnote]; rfl) hsame
        · obtain ⟨hdefer, hnone⟩ := hasked.mp hdefers
          rw [Act.read, hnote, Act.apply, hset, hnone]
          refine ⟨⟨iff_of_true ⟨i, rfl⟩ hdefer, fun _ => List.not_mem_nil⟩, fun _ => ?_⟩
          exact iff_of_true rfl (List.cons_ne_nil _ _)
        · rw [Act.read, hnote, Act.apply, hsame]
          cases hadmissions : admissions (setup.notes acts) with
          | nil =>
            have hnot : setup.config.batch.deferFirstLoad ≠ true := by
              intro hdefer
              rw [hasked.mpr ⟨hdefer, hadmissions⟩] at hdefers
              cases hdefers
            refine ⟨⟨iff_of_false (by rintro ⟨i, hi⟩; cases hi) hnot, fun _ => List.not_mem_nil⟩, ?_⟩
            exact fun hdefer => absurd hdefer hnot
          | cons first rest =>
            rw [hadmissions] at hfirst hflag
            have hjoined : ∀ i', Note.joined i e ≠ .deferred i' := fun i' h => by cases h
            refine ⟨hfirst.append hjoined, fun hdefer => ?_⟩
            exact iff_of_true ((hflag hdefer).mpr (List.cons_ne_nil _ _)) (by simp)

/-- What is noted of a step is about the load whose job was stepped. -/
theorem job_of_note {task : Task} {x : Note} (h : note p task = some x) :
    task = .job x.subject := by
  cases task with
  | resolution t => cases h
  | job i =>
    obtain ⟨job, -, hnote⟩ := Option.bind_eq_some_iff.mp h
    rw [noteOfJob] at hnote
    split at hnote
    · split at hnote
      · cases hnote
      · split at hnote <;> cases hnote <;> rfl
    · rw [Departure.subject_note hnote]
    · cases hnote

theorem Move.of_deferred {task : Task} (h : Move p task (some (.deferred i)) p') :
    ∃ job, task = .job i ∧ p.jobs[i]? = some job ∧ job.phase = .delayed 0 ∧
      p'.jobs[i]? = some { job with phase := .settled (.ok []) } ∧ job.mode = .translate ∧
      SameCounts p.batching.batch p'.batching.batch := by
  generalize hnote : some (Note.deferred i) = note at h
  cases h with
  | @deferred k job batch world hi hphase hmode hcounts =>
    cases hnote
    refine ⟨job, rfl, hi, hphase, ?_, hmode, hcounts⟩
    rw [getElem?_setJob, if_pos rfl]
    exact congrArg _ hi
  | compiling =>
    rw [Invocation.note] at hnote
    split at hnote
    · cases hnote
    · split at hnote <;> cases hnote
    · cases hnote
  | _ => cases hnote

/-- All that becomes of a deferred load. -/
theorem Run.deferred (h : Run setup acts) (hi : .deferred i ∈ setup.notes acts) :
    about i (setup.notes acts) = [.deferred i] ∧
      ∃ job, (setup.after acts).jobs[i]? = some job ∧ job.mode = .translate ∧
        job.phase = .settled (.ok []) := by
  induction h with
  | start => cases hi
  | @act acts act hrun hpossible ih =>
    rw [notes_concat] at hi ⊢
    rw [after_concat, about_append]
    cases act with
    | submit mode load delay =>
      simp only [Act.read, List.append_nil] at hi ⊢
      obtain ⟨hown, job, hjob, hmode, hphase⟩ := ih hi
      exact ⟨by rw [hown]; rfl, job, getElem?_append_of_eq_some hjob _, hmode, hphase⟩
    | elsewhere disk kind =>
      simp only [Act.read, List.append_nil] at hi ⊢
      obtain ⟨hown, hjob⟩ := ih hi
      exact ⟨by rw [hown]; rfl, hjob⟩
    | step task =>
      have hmove := move_of_canStep hpossible
      simp only [Act.read, Act.apply] at hi ⊢
      rcases List.mem_append.mp hi with hi | hi
      · obtain ⟨hown, job, hjob, hmode, hphase⟩ := ih hi
        -- Who has answered is not stepped any more.
        have htask : task ≠ .job i := by
          rintro rfl
          have hsettled : machine.standing (setup.after acts) (.job i) = .settled := by
            simp [machine, standing, hjob, standingOfJob, hphase]
          rcases hpossible with hcan | hcan <;> rw [hsettled] at hcan <;> cases hcan
        refine ⟨?_, job, by rw [getElem?_step_of_ne _ htask, hjob], hmode, hphase⟩
        rw [hown, List.append_right_eq_self]
        refine List.filter_eq_nil_iff.mpr fun x hx => ?_
        have hsubject := job_of_note (Option.mem_toList.mp hx)
        rw [decide_eq_true_eq]
        rintro rfl
        exact htask hsubject
      · rw [Option.mem_toList.mp hi] at hmove ⊢
        obtain ⟨job, rfl, hjob, hphase, hjob', hmode, -⟩ := hmove.of_deferred
        have hcourse := hrun.reached.chronicle.job i job hjob
        rw [Job.Course, hphase] at hcourse
        exact ⟨by rw [hcourse]; simp [about, Note.subject], _, hjob', hmode, rfl⟩

end Pipeline

end StyleBatch
