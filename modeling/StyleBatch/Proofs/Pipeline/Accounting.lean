import StyleBatch.Proofs.Pipeline.Admissions
import StyleBatch.Proofs.Pipeline.Epochs

/-!
# Compiles accounted for

A member that closes a batch calls the compiler in the same poll.  So between two polls the calls of
the compiler are the sources of the closed batches, in the order of closing, and without the first
one where that is not compiled.

* `Polled.called`: what is called next to what is closed.
* `Polled.hasCompiled_iff_succeeded`: what the flag says in the authoritative process.
* `compiles_accounted`: with the log, the flag and the admissions, for every run.
-/

namespace StyleBatch

open Notes

namespace Notes

/-- The closed batches that are compiled. -/
def compiled (authoritative : Bool) (notes : List Note) : List Closing :=
  (closings notes).drop (if authoritative then 0 else 1)

end Notes

namespace Pipeline

/-- The source of a batch that was closed, as long as the compiler was not called on it. -/
def JobPhase.pending : JobPhase → Option Text
  | .leaving ⟨_, _, .compiling ⟨source, _, .queued⟩⟩ => some source
  | _ => none

/-- What is pending of a task. -/
def pending (p : Pipeline) : Task → Option Text
  | .job i => p.jobs[i]?.bind fun job => job.phase.pending
  | .resolution _ => none

variable {setup : Setup} {acts : List Act} {turn : Option Task} {p : Pipeline} {i : Nat}

theorem midway_of_pending {phase : JobPhase} {source : Text} (h : phase.pending = some source) :
    phase.midway = true := by
  rw [JobPhase.pending.eq_def] at h
  split at h
  · rfl
  · cases h

/-- Nothing is pending but of the task that is being polled. -/
theorem Polled.pending_eq (h : Polled setup acts turn) {task : Task}
    (hturn : turn = none ∨ turn = some task) :
    turn.bind (pending (setup.after acts)) = pending (setup.after acts) task := by
  rcases hturn with rfl | rfl
  · cases task with
    | resolution t => rfl
    | job i =>
      rw [pending, Option.bind_none]
      cases hi : (setup.after acts).jobs[i]? with
      | none => rfl
      | some job =>
        cases hpending : job.phase.pending with
        | none => exact hpending.symm
        | some source => cases h.midway hi (midway_of_pending hpending)
  · rfl

theorem pending_setJob {p' : Pipeline} {job : Job} {phase : JobPhase} (hi : p.jobs[i]? = some job)
    (hjobs : p'.jobs = p.jobs) : pending (setJob p' i phase) (.job i) = phase.pending := by
  rw [pending, getElem?_setJob, if_pos rfl, hjobs, hi]
  rfl

/-- A step that is apart from all compiles finds nothing pending and leaves nothing pending. -/
theorem pending_of_apart {task : Task} (h : Apart p task) :
    pending p task = none ∧ pending (step task p) task = none := by
  cases task with
  | resolution t => exact ⟨rfl, rfl⟩
  | job i =>
    cases hi : p.jobs[i]? with
    | none =>
      rw [step, hi, pending, hi]
      exact ⟨rfl, rfl⟩
    | some job =>
      have hnot : ∀ d, job.phase = .leaving d → d.result? ≠ none :=
        fun d hphase => h.answered i job d rfl hi hphase
      have hold : job.phase.pending = none := by
        rw [JobPhase.pending.eq_def]
        split
        · rename_i hphase
          exact absurd rfl (hnot _ hphase)
        · rfl
      refine ⟨by rw [pending, hi]; exact hold, ?_⟩
      have hset : ∀ {p' : Pipeline} {phase : JobPhase}, p'.jobs = p.jobs → phase.pending = none →
          pending (setJob p' i phase) (.job i) = none :=
        fun hjobs hphase => (pending_setJob hi hjobs).trans hphase
      have hsame : pending p (.job i) = none := by rw [pending, hi]; exact hold
      rw [step, hi]
      dsimp only
      rw [stepJob]
      split
      · exact hset rfl rfl
      · split
        · exact hset rfl rfl
        · dsimp only
          split <;> exact hset rfl rfl
      · split
        · exact hsame
        · split <;> exact hset rfl rfl
      · exact hset rfl rfl
      · exact hset rfl rfl
      · split
        · exact hset rfl rfl
        · rename_i d hphase _ hd
          exact absurd hd (hnot d hphase)
      · exact hsame

/-- What is called next follows what was called and what is pending. -/
theorem pending_invoked {w w' : Workshop} {world world' : World} {x x' : Invocation}
    {note : Option Note} {storing : Option Storing} {address : Text} {c : Contribution}
    (h : Invocation.Does i w world x note storing (x', w', world')) :
    called note.toList ++ (JobPhase.leaving ⟨address, c, .compiling x'⟩).pending.toList =
      (JobPhase.leaving ⟨address, c, .compiling x⟩).pending.toList := by
  obtain ⟨source, origin, phase⟩ := x
  cases h with
  | waited hwaits =>
    dsimp only at hwaits
    cases hwaits <;> rfl
  | called hphase | failed hphase | beganMaking hphase | beganWriting hphase | kept hphase
  | made hphase | opened hphase | unopened hphase | filled hphase | stored hphase =>
    cases hphase
    rfl
  | refused hphase => rcases hphase with hphase | hphase <;> cases hphase <;> rfl

/-- What a member on its way out closes is pending until it calls the compiler on it. -/
theorem pending_goes {d : Departure} {b : Batching} {world : World}
    {out : Departure × Batching × World} (h : Departure.Goes d b world out) (i : Nat)
    {before : List Closing} {sources : List Text}
    (hfirst : b.environment.authoritative = false →
      (b.batch.hasCompiled = true ↔ before ≠ []))
    (hsources : sources ++ (JobPhase.leaving d).pending.toList =
      (before.drop (if b.environment.authoritative then 0 else 1)).map fun c => c.batch.source) :
    sources ++ called (d.note i b).toList ++ (JobPhase.leaving out.1).pending.toList =
      ((before ++ closings (d.note i b).toList).drop
        (if b.environment.authoritative then 0 else 1)).map fun c => c.batch.source := by
  obtain ⟨address, c, phase⟩ := d
  have hleft : phase = .queued →
      called (Departure.note i b ⟨address, c, phase⟩).toList = [] := by
    rintro rfl
    rfl
  rw [List.append_assoc]
  cases h with
  | left hphase hclosing =>
    rw [hleft hphase, Departure.closings_note hphase, hclosing]
    cases hphase
    simpa [JobPhase.pending] using hsources
  | @closed closed batch hphase hclosing _ _ _ hcompile =>
    rw [hleft hphase, Departure.closings_note hphase, hclosing]
    cases hphase
    have hdrop : (if b.environment.authoritative then 0 else 1) ≤ before.length := by
      split
      · exact Nat.zero_le _
      · rename_i hnot
        have hfollower := Bool.eq_false_iff.mpr hnot
        rw [hfollower, Bool.false_or, hfirst hfollower] at hcompile
        exact List.length_pos_iff.mpr hcompile
    rw [Option.map_some, Option.toList_some, List.drop_append_of_le_length hdrop, List.map_append,
      ← hsources]
    simp [JobPhase.pending, Departure.sent]
  | @skipped closed batch hphase hclosing _ _ _ hfollower hnothing =>
    rw [hleft hphase, Departure.closings_note hphase, hclosing]
    cases hphase
    have hnone : before = [] := by
      by_contra hne
      rw [(hfirst hfollower).mpr hne] at hnothing
      cases hnothing
    simp only [hnone, hfollower] at hsources ⊢
    simpa [JobPhase.pending] using hsources
  | @invoked x hphase hx =>
    cases hphase
    have hdoes := x.does_step i b.workshop world hx
    rw [Departure.closings_note_of_ne (by simp), List.append_nil, ← hsources, Departure.note]
    dsimp only
    generalize x.step b.workshop world = out at hdoes ⊢
    obtain ⟨x', w', world'⟩ := out
    rw [pending_invoked hdoes]
  | @failed x hphase hx | @compiled x text hphase hx =>
    cases hphase
    have hnote : Departure.note i b ⟨address, c, .compiling x⟩ = none := by
      simp only [Departure.note, Invocation.note, hx]
    have hnone : (JobPhase.leaving ⟨address, c, .compiling x⟩).pending = none := by
      obtain ⟨source, origin, phase⟩ := x
      dsimp only at hx
      subst hx
      rfl
    rw [hnone] at hsources
    simpa [JobPhase.pending, hnote, called, closings] using hsources

/-- What was called, and what is pending, are the sources of the closed batches that are compiled. -/
theorem Polled.called (h : Polled setup acts turn) :
    called (setup.notes acts) ++ (turn.bind (pending (setup.after acts))).toList =
      (compiled setup.config.environment.authoritative (setup.notes acts)).map
        fun c => c.batch.source := by
  induction h with
  | start =>
    cases setup.config.environment.authoritative <;> rfl
  | @act acts turn act hpolled hpossible hturn ih =>
    have hnext := hpolled.act hpossible hturn
    -- An act that is no step comes between two polls.
    have hbetween : act.read note (setup.after acts) = [] → turn = none →
        act.turn (setup.after acts) = none →
        Notes.called (setup.notes (acts ++ [act])) ++
            ((act.turn (setup.after acts)).bind (pending (setup.after (acts ++ [act])))).toList =
          (compiled setup.config.environment.authoritative (setup.notes (acts ++ [act]))).map
            fun c => c.batch.source := by
      rintro hnone rfl hturn'
      rw [notes_concat, hnone, List.append_nil, hturn']
      exact ih
    have hrun := hpolled.run
    cases act with
    | submit mode load delay =>
      exact hbetween rfl (Option.eq_none_iff_forall_ne_some.mpr fun task htask =>
        nomatch hturn task htask) rfl
    | elsewhere disk kind =>
      exact hbetween rfl (Option.eq_none_iff_forall_ne_some.mpr fun task htask =>
        nomatch hturn task htask) rfl
    | step task =>
      have hturn' : turn = none ∨ turn = some task := by
        cases turn with
        | none => exact Or.inl rfl
        | some task' => cases hturn task' rfl; exact Or.inr rfl
      have hnow : Act.turn (.step task) (setup.after acts) = none ∨
          Act.turn (.step task) (setup.after acts) = some task := by
        rw [Act.turn]
        split
        · exact Or.inr rfl
        · exact Or.inl rfl
      rw [hpolled.pending_eq hturn'] at ih
      rw [hnext.pending_eq hnow, compiled, notes_concat, called_append, closings_append,
        after_concat, Act.apply, Act.read]
      rcases leaving_or_apart (setup.after acts) task with ⟨i, d, rfl, hleaving⟩ | hapart
      · obtain ⟨hstep, hnote, -⟩ := step_of_leaving hleaving
        obtain ⟨⟨job, hi, hphase⟩, hd⟩ := hleaving
        have hgoes := d.goes_step (setup.after acts).batching
          (setup.after acts).resolution.world hd
        have henvironment := hrun.equipped.environment
        have hold : pending (setup.after acts) (.job i) = (JobPhase.leaving d).pending := by
          rw [pending, hi, Option.bind_some, hphase]
        have hnew : ∀ out, pending (went (setup.after acts) i out) (.job i) =
            (JobPhase.leaving out.1).pending := by
          intro out
          rw [pending, getElem?_went hi, Option.bind_some]
        rw [hold, compiled, ← henvironment] at ih
        rw [hstep, hnote, hnew, ← henvironment]
        exact pending_goes hgoes i (fun hfollower => hrun.booked.hasCompiled
          (henvironment ▸ hfollower)) ih
      · obtain ⟨hold, hnew⟩ := pending_of_apart hapart
        rw [hold] at ih
        rw [hnew, hapart.called, hapart.closings, List.append_nil, List.append_nil]
        exact ih

/-! ## Who has finished -/

/-- Between two polls, whoever was given a text has answered. -/
theorem Polled.outcome_of_given (h : Polled setup acts none) {d : Departure} {text : Text}
    (hgiven : Given (setup.after acts) i d text) :
    (setup.after acts).outcome? i = some (answerOf d text) := by
  obtain ⟨hd, ⟨load, mode, phase⟩, hi, hphase⟩ := hgiven
  dsimp only at hphase
  rcases hphase with rfl | rfl
  · obtain ⟨address, c, phase⟩ := d
    dsimp only at hd
    subst hd
    cases h.midway hi rfl
  · simp only [outcome?, hi]

/-- Who has called the compiler and has finished was given a text. -/
theorem Run.given_of_called (h : Run setup acts) {source : Text}
    (hcalled : .called i source ∈ setup.notes acts)
    (hfinished : ((setup.after acts).outcome? i).isSome) :
    ∃ d text, Given (setup.after acts) i d text := by
  have hown : .called i source ∈ about i (setup.notes acts) := mem_about.mpr ⟨hcalled, rfl⟩
  rw [outcome?] at hfinished
  split at hfinished
  · rename_i load mode o hi
    rcases h.reached.chronicle.job i _ hi with hnone | hdeferred | ⟨e, d, text, rest, hd, -, -, rfl⟩
    · rw [hnone] at hown
      cases hown
    · rw [hdeferred] at hown
      cases List.mem_singleton.mp hown
    · exact ⟨d, text, hd, _, hi, Or.inr rfl⟩
  · cases hfinished

/-- A compile has succeeded: the compiler gave a text for a batch, and the member that has closed the
batch has done with it what there was to do. -/
def CompileSucceeded (setup : Setup) (acts : List Act) : Prop :=
  ∃ i source t, Compiled (setup.notes acts) i source t ∧ ((setup.after acts).outcome? i).isSome

/-- In the authoritative process, the flag says whether a compile has succeeded. -/
theorem Polled.hasCompiled_iff_succeeded (h : Polled setup acts none)
    (hauthoritative : setup.config.environment.authoritative = true) :
    (setup.after acts).batching.batch.hasCompiled = true ↔ CompileSucceeded setup acts := by
  constructor
  · intro hcompiled
    obtain ⟨i, source, t, d, hnoted, hgiven⟩ := h.run.given_of_hasCompiled hauthoritative hcompiled
    exact ⟨i, source, t, hnoted, by rw [h.outcome_of_given hgiven]; rfl⟩
  · rintro ⟨i, source, t, hnoted, hfinished⟩
    obtain ⟨d, text, hgiven⟩ := h.run.given_of_called hnoted.1 hfinished
    exact h.run.hasCompiled_of_given hauthoritative hnoted hgiven

/-- Where nothing is written, a compile has succeeded as soon as the compiler has given a text. -/
theorem Polled.succeeded_of_compiled (h : Polled setup acts none)
    (hpersists : setup.config.environment.persists = false) {source t : Text}
    (hcompiled : Compiled (setup.notes acts) i source t) : CompileSucceeded setup acts := by
  refine ⟨i, source, t, hcompiled, ?_⟩
  obtain ⟨⟨load, mode, phase⟩, hi, hphase⟩ := h.run.reached.chronicle.phase_of_called hcompiled.1
  dsimp only at hphase
  rcases hphase with ⟨⟨address, c, phase⟩, rfl⟩ | ⟨o, rfl⟩
  · exfalso
    obtain ⟨e, rest, hown, hfate⟩ := h.run.fates.job i _ hi
    obtain ⟨hcalled, report, hanswered, -⟩ := hcompiled
    have hanswered := mem_about.mpr ⟨hanswered, rfl⟩
    rw [Note.subject, hown] at hanswered
    generalize Storing.about i (setup.storings acts) = stored at hfate
    have hmidway := fun hmidway => h.midway hi hmidway
    cases hfate with
    | queued => cases hmidway rfl
    | left | skipped | compiled => cases hmidway rfl
    | @compiling closed x own _ _ _ hx =>
      obtain ⟨csource, origin, phase⟩ := x
      rw [hpersists] at hx
      cases hx with
      | queued | failed | kept => cases hmidway rfl
      | compiling call => simp at hanswered
      | making _ _ hpersists' | opening hpersists' | filling _ hpersists' | writing _ hpersists'
      | missing _ _ hpersists' =>
        cases hpersists'
      | stored hpersists' | refused hpersists' => cases hpersists'
  · simp only [outcome?, hi, Option.isSome_some]

/-! ## All of it -/

/-- What is known of a load that was deferred. -/
structure Deferred (notes : List Note) (p : Pipeline) (i : Nat) : Prop where
  /-- It is answered with the empty text. -/
  answered : p.outcome? i = some (.ok [])
  /-- It neither joins nor leaves, so it has nothing to do with any batch. -/
  about : about i notes = [.deferred i]
  uninlined : ∀ x ∈ p.resolution.inlinings, x.load ≠ i

theorem Run.deferred_load (h : Run setup acts) (hi : .deferred i ∈ setup.notes acts) :
    Deferred (setup.notes acts) (setup.after acts) i := by
  obtain ⟨hown, ⟨load, mode, phase⟩, hjob, rfl, rfl⟩ := h.deferred hi
  refine ⟨by simp only [outcome?, hjob], hown, fun x hx hload => ?_⟩
  rcases h.reached.joined_of_inlining i (List.mem_map.mpr ⟨x, hx, hload⟩) with ⟨e, hjoined⟩ | hinline
  · have hjoined := mem_about.mpr ⟨hjoined, rfl⟩
    rw [Note.subject, hown] at hjoined
    cases List.mem_singleton.mp hjoined
  · rw [List.getElem?_map, hjob] at hinline
    cases hinline

/-- What is known of compiles, of the flag that something was compiled and of deferred loads. -/
structure Accounted (setup : Setup) (acts : List Act) : Prop where
  /-- The compiler is called on the sources of the closed batches, in the order of closing; outside
  the authoritative process not on the first one. -/
  calls : (setup.after acts).batching.workshop.compiler.calls = setup.compiler.calls ++
    (compiled setup.config.environment.authoritative (setup.notes acts)).map fun c => c.batch.source
  /-- There is an event for each closed batch, and outside the authoritative process one more after
  the first of them. -/
  events : (setup.after acts).log.bookings =
    bookings setup.config.environment.authoritative (submissions acts)
      (closings (setup.notes acts))
  /-- Who has closed the batch that is not compiled gets the empty text. -/
  skipped : setup.config.environment.authoritative = false → ∀ first rest,
    closings (setup.notes acts) = first :: rest →
    ∃ d : Departure, .left first.load d.contribution (some first.batch) ∈ setup.notes acts ∧
      (setup.after acts).outcome? first.load = some (answerOf d [])
  succeeded : setup.config.environment.authoritative = true →
    ((setup.after acts).batching.batch.hasCompiled = true ↔ CompileSucceeded setup acts)
  /-- Where nothing is written, a compile has succeeded as soon as the compiler has given a text. -/
  given : setup.config.environment.persists = false → ∀ i source t,
    Compiled (setup.notes acts) i source t → CompileSucceeded setup acts
  closed : setup.config.environment.authoritative = false →
    ((setup.after acts).batching.batch.hasCompiled = true ↔ closings (setup.notes acts) ≠ [])
  /-- The flag is never taken back. -/
  kept : ∀ before, before <+: acts → (setup.after before).batching.batch.hasCompiled = true →
    (setup.after acts).batching.batch.hasCompiled = true
  /-- The first admission is deferred, if that is asked for, and no other one. -/
  admissions : FirstDeferred setup.config.batch.deferFirstLoad (admissions (setup.notes acts))
  deferred : ∀ i, .deferred i ∈ setup.notes acts →
    Deferred (setup.notes acts) (setup.after acts) i
  /-- Deferring a load leaves the epoch, the counts and the buffer as they are. -/
  untouched : ∀ before act i, before ++ [act] <+: acts →
    act.read note (setup.after before) = [.deferred i] →
    SameCounts (setup.after before).batching.batch (act.apply (setup.after before)).batching.batch

/-- Who joins, who leaves, how long a compile takes, what comes of it and what comes between: in every
run, all compiles are accounted for between any two polls. -/
theorem compiles_accounted (h : Polled setup acts none) : Accounted setup acts where
  calls := by
    have hcalled := h.called
    rw [Option.bind_none, Option.toList_none, List.append_nil] at hcalled
    rw [h.run.calls, hcalled]
  events := h.run.booked.events
  skipped hauthoritative first rest hclosings := by
    obtain ⟨d, hleft, hgiven⟩ := h.run.skipped hauthoritative hclosings
    exact ⟨d, hleft, h.outcome_of_given hgiven⟩
  succeeded := h.hasCompiled_iff_succeeded
  given hpersists _ _ _ hcompiled := h.succeeded_of_compiled hpersists hcompiled
  closed := h.run.booked.hasCompiled
  kept before hbefore hcompiled := by
    obtain ⟨more, rfl⟩ := hbefore
    rw [after_append]
    exact List.foldlRecOn (motive := fun p : Pipeline => p.batching.batch.hasCompiled = true) more _
      hcompiled fun p hp act _ => hasCompiled_apply hp act
  admissions := h.run.firstDeferred.1
  deferred i hi := h.run.deferred_load hi
  untouched before act i hbefore hread := by
    obtain ⟨-, hpossible⟩ := (h.run.of_prefix hbefore).of_concat
    cases act with
    | submit | elsewhere => cases hread
    | step task =>
      rw [Act.read] at hread
      have hnote := Option.mem_toList.mp (hread ▸ List.mem_singleton_self _)
      have hmove := move_of_canStep hpossible
      rw [Option.mem_def.mp hnote] at hmove
      obtain ⟨-, -, -, -, -, -, hsame⟩ := hmove.of_deferred
      exact hsame

/-- A process beside the authoritative one that defers its first load. -/
def followerSetup : Setup :=
  { echoSetup [] with config := { environment := .follower, batch := ⟨1, true⟩ } }

/-- A load that is deferred and three batches, the first of them with two loads. -/
def followerActs : List Act :=
  together followerSetup [(⟨"s/v", "a", []⟩, 0), (⟨"s/w", "b", []⟩, 1), (⟨"s/x", "c", []⟩, 1),
    (⟨"s/y", "d", []⟩, 20), (⟨"s/z", "e", []⟩, 40)] 60

/-- The first batch is closed and not compiled, the other ones are compiled. -/
theorem compiles_accounted_follower : Accounted followerSetup followerActs ∧
    admissions (followerSetup.notes followerActs) =
      [.deferred 0, .joined 1 1, .joined 2 1, .joined 3 2, .joined 4 3] ∧
    (followerSetup.after followerActs).batching.workshop.compiler.calls =
      (["d", "e"] : List Text) ∧
    (followerSetup.after followerActs).log.bookings =
      [.batchClosed 1 2 "s/x" 2 (Digest.ofText "bc"), .firstCompileSkipped 1,
        .batchClosed 2 1 "s/y" 1 (Digest.ofText "d"),
        .batchClosed 3 1 "s/z" 1 (Digest.ofText "e")] := by
  have hpolled : Polled followerSetup followerActs none :=
    polled_of_start (by decide +kernel)
  refine ⟨compiles_accounted hpolled, ?_, ?_, ?_⟩
  all_goals decide +kernel

end Pipeline

end StyleBatch
