import StyleBatch.Proofs.Pipeline.Bookings
import StyleBatch.Proofs.Pipeline.Output
import StyleBatch.Proofs.Pipeline.Writes

/-!
# What the artifact holds

Every text that the compiler gave is written to the artifact, one over the other, in the order in
which the compiles come to an end.  So the artifact holds the text that was written last, unless two
compiles have its file open at once.  That is the text of the largest epoch if a batch is closed only
after the earlier ones were answered; otherwise a compile that takes long may write over the text of
a later epoch, or into it.

* `Run.turned_of_written`, `Run.written_of_turned`: what was written is the text of a batch that was
  compiled, and each such text was written once.
* `Run.answered_of_inTurn`, `Run.silent_of_inTurn`: batches that are closed one after the other.
* `Run.oneWriter_of_inTurn`: their texts are written one after the other, too.
* `artifact_holds_last`: what the artifact holds once everybody has answered.
* `artifact_outdated`: a run after which it does not hold the text of the largest epoch.
* `artifact_torn`: a run with two writes at once, after which it holds no text of the compiler's.
-/

namespace StyleBatch

open Notes

namespace Pipeline

variable {setup : Setup} {acts : List Act} {p : Pipeline} {i : Nat}

/-! ## Batches one after the other -/

theorem outcome?_eq_some {o : Outcome} :
    p.outcome? i = some o ↔ ∃ job, p.jobs[i]? = some job ∧ job.phase = .settled o := by
  rw [outcome?]
  constructor
  · intro h
    split at h
    · rename_i hi
      cases h
      exact ⟨_, hi, rfl⟩
    · cases h
  · rintro ⟨⟨load, mode, phase⟩, hi, rfl⟩
    rw [hi]

/-- Who has answered has answered for good. -/
theorem outcome?_apply {o : Outcome} (h : p.outcome? i = some o) (act : Act) :
    (act.apply p).outcome? i = some o := by
  obtain ⟨job, hi, hphase⟩ := outcome?_eq_some.mp h
  refine outcome?_eq_some.mpr ⟨job, ?_, hphase⟩
  cases act with
  | submit mode load delay => exact getElem?_append_of_eq_some hi _
  | elsewhere disk kind => exact hi
  | step task =>
    rw [Act.apply]
    by_cases htask : task = .job i
    · simp only [htask, step, hi, stepJob, hphase]
    · rw [getElem?_step_of_ne p htask, hi]

/-- Who closes a batch has written nothing yet. -/
theorem Run.stored_of_closing (h : Run setup acts) {task : Task} {c : Closing}
    (hc : c ∈ closings (note (setup.after acts) task).toList) :
    closings (note (setup.after acts) task).toList = [c] ∧
      storing (setup.after acts) task = none ∧
      Storing.about c.load (setup.storings acts) = [] := by
  rcases leaving_or_apart (setup.after acts) task with ⟨i, d, rfl, hleaving⟩ | hapart
  · obtain ⟨-, hnote, hstoring⟩ := step_of_leaving hleaving
    rw [hnote] at hc ⊢
    rw [hstoring]
    by_cases hd : d.phase = .queued
    · obtain ⟨e, rest, -, hfate⟩ := h.fate_of_leaving hleaving
      rw [hd] at hfate
      rw [Departure.closings_note hd] at hc ⊢
      obtain ⟨closed, hclosing, rfl⟩ := Option.map_eq_some_iff.mp (Option.mem_toList.mp hc)
      refine ⟨by rw [hclosing]; rfl, by rw [Departure.storing, hd], ?_⟩
      generalize Storing.about i (setup.storings acts) = stored at hfate ⊢
      cases hfate
      rfl
    · rw [Departure.closings_note_of_ne hd] at hc
      cases hc
  · rw [hapart.closings] at hc
    cases hc

/-- Who is having a batch compiled has closed it and has not answered. -/
theorem Run.closing_of_compiling (h : Run setup acts) {job : Job} {d : Departure} {x : Invocation}
    (hi : (setup.after acts).jobs[i]? = some job) (hphase : job.phase = .leaving d)
    (hd : d.phase = .compiling x) :
    (setup.after acts).outcome? i = none ∧ ∃ batch, ⟨i, batch⟩ ∈ closings (setup.notes acts) := by
  obtain ⟨load, mode, phase⟩ := job
  dsimp only at hphase
  subst hphase
  obtain ⟨e, rest, hown, hfate⟩ := h.fates.job _ _ hi
  rw [hd] at hfate
  generalize Storing.about i (setup.storings acts) = stored at hfate
  cases hfate with
  | @compiling closed x own stored hcloses =>
    refine ⟨by simp only [outcome?, hi], closed, ?_⟩
    exact mem_closings.mpr ⟨_, mem_of_about hown (by simp), hcloses⟩

/-- Who writes has closed a batch and has not answered. -/
theorem Run.closing_of_stored (h : Run setup acts) {task : Task} {s : Storing}
    (hs : storing (setup.after acts) task = some s) :
    closings (note (setup.after acts) task).toList = [] ∧
      (setup.after acts).outcome? s.subject = none ∧
      ∃ batch, ⟨s.subject, batch⟩ ∈ closings (setup.notes acts) := by
  rcases leaving_or_apart (setup.after acts) task with ⟨i, d, rfl, hleaving⟩ | hapart
  · obtain ⟨-, hnote, hstoring⟩ := step_of_leaving hleaving
    obtain ⟨⟨job, hi, hphase⟩, -⟩ := hleaving
    rw [hstoring] at hs
    obtain rfl := d.subject_storing hs
    rw [Departure.storing] at hs
    split at hs
    · rename_i x hd
      exact ⟨hnote ▸ Departure.closings_note_of_ne (by simp [hd]),
        h.closing_of_compiling hi hphase hd⟩
    · cases hs
  · rw [hapart.storing] at hs
    cases hs

/-- So has who has the artifact's file open. -/
theorem Run.closing_of_file? (h : Run setup acts) (hopen : ((setup.after acts).file? i).isSome) :
    (setup.after acts).outcome? i = none ∧ ∃ batch, ⟨i, batch⟩ ∈ closings (setup.notes acts) := by
  obtain ⟨file, hfile⟩ := Option.isSome_iff_exists.mp hopen
  obtain ⟨job, hi, hphase⟩ := Option.bind_eq_some_iff.mp hfile
  rw [JobPhase.file?.eq_def] at hphase
  split at hphase
  · rename_i d hleaving
    rw [Departure.file?] at hphase
    split at hphase
    · rename_i x hd
      exact h.closing_of_compiling hi hleaving hd
    · cases hphase
  · cases hphase

/-- A batch is closed only after everybody who has closed an earlier one has answered. -/
def InTurn (setup : Setup) (acts : List Act) : Prop :=
  ∀ before act, before ++ [act] <+: acts → closings (act.read note (setup.after before)) ≠ [] →
    ∀ c ∈ closings (setup.notes before), ((setup.after before).outcome? c.load).isSome

theorem InTurn.of_prefix {before : List Act} (h : InTurn setup acts) (hbefore : before <+: acts) :
    InTurn setup before :=
  fun _ act hstart => h _ act (hstart.trans hbefore)

/-- Then everybody has answered but whoever has closed the last batch. -/
theorem Run.answered_of_inTurn (h : Run setup acts) (hturn : InTurn setup acts) {c : Closing}
    (hc : c ∈ (closings (setup.notes acts)).dropLast) :
    ((setup.after acts).outcome? c.load).isSome := by
  induction h with
  | start => cases hc
  | @act acts act hrun _ ih =>
    have hold : ((setup.after acts).outcome? c.load).isSome →
        ((setup.after (acts ++ [act])).outcome? c.load).isSome := by
      intro hsome
      obtain ⟨o, ho⟩ := Option.isSome_iff_exists.mp hsome
      rw [after_concat, outcome?_apply ho act]
      rfl
    rw [notes_concat, closings_append] at hc
    by_cases hnone : closings (act.read note (setup.after acts)) = []
    · rw [hnone, List.append_nil] at hc
      exact hold (ih (hturn.of_prefix (List.prefix_append ..)) hc)
    · refine hold (hturn acts act List.prefix_rfl hnone c ?_)
      cases act with
      | submit | elsewhere => exact absurd rfl hnone
      | step task =>
        obtain ⟨c', hc'⟩ := List.exists_mem_of_ne_nil _ hnone
        obtain ⟨heq, -⟩ := hrun.stored_of_closing hc'
        rw [Act.read, heq, List.dropLast_concat] at hc
        exact hc

/-- So who has closed a batch and has not answered has closed the last one. -/
theorem Run.last_of_inTurn (h : Run setup acts) (hturn : InTurn setup acts) {c : Closing}
    (hc : c ∈ closings (setup.notes acts))
    (hunanswered : (setup.after acts).outcome? c.load = none) :
    closings (setup.notes acts) = (closings (setup.notes acts)).dropLast ++ [c] := by
  have hne := List.ne_nil_of_mem hc
  rw [← List.dropLast_append_getLast hne] at hc
  rcases List.mem_append.mp hc with hearly | hlast
  · have hsome := h.answered_of_inTurn hturn hearly
    rw [hunanswered] at hsome
    cases hsome
  · rw [List.mem_singleton.mp hlast, List.dropLast_append_getLast]

/-- Then no two compiles have the artifact's file open at once. -/
theorem Run.oneWriter_of_inTurn (h : Run setup acts) (hturn : InTurn setup acts) :
    OneWriter setup acts := by
  intro before hbefore i j hi hj
  have hrun := h.of_prefix hbefore
  obtain ⟨hi, batch, hbatch⟩ := hrun.closing_of_file? hi
  obtain ⟨hj, batch', hbatch'⟩ := hrun.closing_of_file? hj
  have hlast := hrun.last_of_inTurn (hturn.of_prefix hbefore) hbatch hi
  rw [hrun.last_of_inTurn (hturn.of_prefix hbefore) hbatch' hj] at hlast
  obtain ⟨-, hsame⟩ := List.append_inj' hlast rfl
  exact (Closing.mk.inj (List.singleton_inj.mp hsame)).1.symm

/-- Then nobody who has closed a batch after that of whoever has written last has written. -/
theorem Run.silent_of_inTurn (h : Run setup acts) (hturn : InTurn setup acts) {s : Storing}
    (hlast : (setup.storings acts).getLast? = some s) : ∃ early batch late,
      closings (setup.notes acts) = early ++ ⟨s.subject, batch⟩ :: late ∧
        ∀ c ∈ late, Storing.about c.load (setup.storings acts) = [] := by
  induction h generalizing s with
  | start => cases hlast
  | @act acts act hrun _ ih =>
    have hbefore := hturn.of_prefix (List.prefix_append acts [act])
    rw [storings_concat] at hlast ⊢
    rw [notes_concat, closings_append]
    cases act with
    | submit | elsewhere =>
      simp only [Act.read, List.append_nil] at hlast ⊢
      rw [show closings [] = [] from rfl, List.append_nil]
      exact ih hbefore hlast
    | step task =>
      simp only [Act.read] at hlast ⊢
      cases hstoring : storing (setup.after acts) task with
      | some s' =>
        rw [hstoring, Option.toList_some, List.getLast?_concat] at hlast
        cases hlast
        obtain ⟨hnone, hunanswered, batch, hmem⟩ := hrun.closing_of_stored hstoring
        refine ⟨(closings (setup.notes acts)).dropLast, batch, [], ?_,
          fun _ hc => absurd hc List.not_mem_nil⟩
        rw [hnone, List.append_nil]
        exact hrun.last_of_inTurn hbefore hmem hunanswered
      | none =>
        rw [hstoring, Option.toList_none, List.append_nil] at hlast
        obtain ⟨early, batch, late, heq, hlate⟩ := ih hbefore hlast
        refine ⟨early, batch, late ++ closings (note (setup.after acts) task).toList, ?_, ?_⟩
        · rw [heq, List.append_assoc]
          rfl
        · rw [Option.toList_none, List.append_nil]
          intro c hc
          rcases List.mem_append.mp hc with hc | hc
          · exact hlate c hc
          · exact (hrun.stored_of_closing hc).2.2

/-! ## What the artifact holds -/

/-- The batches that were closed are handed over in this order. -/
theorem sublist_closings (notes : List Note) :
    ((closings notes).map Closing.batch).Sublist (handedOver notes) := by
  induction notes with
  | nil => exact .slnil
  | cons x notes ih =>
    have hclosings : closings (x :: notes) = x.closing?.toList ++ closings notes := by
      rw [closings, List.filterMap_cons]
      cases x.closing? <;> rfl
    rw [hclosings, List.map_append]
    cases x with
    | left i c closed =>
      cases closed with
      | none => exact ih
      | some closed =>
        cases hcloses : c.closes closed with
        | true => simpa [Note.closing?, Option.filter, hcloses, handedOver] using ih
        | false =>
          simpa [Note.closing?, Option.filter, hcloses, handedOver] using ih.cons closed
    | _ => exact ih

/-- Epochs are closed one after the other. -/
theorem Run.closings_ordered (h : Run setup acts) :
    (closings (setup.notes acts)).Pairwise fun c c' => c.batch.epoch < c'.batch.epoch := by
  have hordered := h.reached.chronicle.ledger.ordered.sublist (sublist_closings _)
  rw [List.pairwise_map] at hordered
  exact hordered

/-- A load closes one batch. -/
theorem Run.closing_unique (h : Run setup acts) {batch batch' : ClosedBatch}
    (hbatch : ⟨i, batch⟩ ∈ closings (setup.notes acts))
    (hbatch' : ⟨i, batch'⟩ ∈ closings (setup.notes acts)) : batch = batch' := by
  obtain ⟨c, hleft, -⟩ := mem_closings.mp hbatch
  obtain ⟨c', hleft', -⟩ := mem_closings.mp hbatch'
  exact Option.some.inj (h.reached.chronicle.ledger.left_unique hleft hleft').2

/-- The batch was compiled to the text. -/
def Turned (notes : List Note) (c : Closing) (t : Text) : Prop :=
  c ∈ closings notes ∧ Compiled notes c.load c.batch.source t

/-- What was written is the text of a batch that was compiled. -/
theorem Run.turned_of_written (h : Run setup acts) {t : Text}
    (hwritten : .written i t ∈ setup.storings acts) :
    ∃ batch, Turned (setup.notes acts) ⟨i, batch⟩ t := by
  have hstored := Storing.mem_about.mpr ⟨hwritten, rfl⟩
  rw [Storing.subject] at hstored
  cases hi : (setup.after acts).jobs[i]? with
  | none =>
    rw [h.fates.absent i (List.getElem?_eq_none_iff.mp hi)] at hstored
    cases hstored
  | some job =>
    obtain ⟨c, phase, e, rest, hown, hfate⟩ := (h.fates.job i job hi).of_stored hstored
    obtain ⟨closed, _, hcloses, rfl, report, rfl, hsuccess, htext⟩ := hfate.gave_of_written hstored
    refine ⟨closed, mem_closings.mpr ⟨c, mem_of_about hown (by simp), hcloses⟩, ?_, report, ?_⟩
    · exact mem_of_about hown (by simp)
    · exact ⟨mem_of_about hown (by simp), hsuccess, htext⟩

/-- The artifact holds the text of the largest epoch that was compiled. -/
def HoldsNewest (setup : Setup) (acts : List Act) : Prop :=
  ∀ c t, Turned (setup.notes acts) c t →
    (∀ c' t', Turned (setup.notes acts) c' t' → c'.batch.epoch ≤ c.batch.epoch) →
    (setup.after acts).disk.read setup.config.artifact.path = .ok (Utf8.encode t)

/-- Once everybody has answered, the text of each compiled batch was written once, if no write
fails. -/
theorem Run.written_of_turned (h : Run setup acts)
    (hpersists : setup.config.environment.persists = true)
    (hsucceeded : ∀ i t, .refused i t ∉ setup.storings acts)
    (hfinished : ∀ i < (setup.after acts).jobs.length, ((setup.after acts).outcome? i).isSome)
    {c : Closing} {t : Text} (hc : Turned (setup.notes acts) c t) :
    Storing.about c.load (setup.storings acts) = [.written c.load t] := by
  obtain ⟨hc, hcompiled⟩ := hc
  have hlt := h.load_lt hc
  rw [← h.reached.linked.length_jobs] at hlt
  obtain ⟨o, ho⟩ := Option.isSome_iff_exists.mp (hfinished _ hlt)
  obtain ⟨d, closed, -, -, -, honce⟩ := h.answer_of_compiled hcompiled ho
  rw [Storing.Once, if_pos hpersists] at honce
  refine honce.resolve_right fun hrefused => hsucceeded c.load t ?_
  have hmem : Storing.refused c.load t ∈ Storing.about c.load (setup.storings acts) := by
    rw [hrefused]
    exact List.mem_singleton_self _
  exact (Storing.mem_about.mp hmem).1

/-- If anything was written, and everybody has answered, the artifact holds what was written last. -/
theorem Run.exists_last_written (h : Run setup acts) (huntouched : Untouched setup acts)
    (hone : OneWriter setup acts) (hsucceeded : ∀ i t, .refused i t ∉ setup.storings acts)
    (hfinished : ∀ i < (setup.after acts).jobs.length, ((setup.after acts).outcome? i).isSome)
    {s : Storing} (hs : s ∈ setup.storings acts) : ∃ last t, Turned (setup.notes acts) last t ∧
      (setup.storings acts).getLast? = some (.written last.load t) ∧
      (setup.after acts).disk.read setup.config.artifact.path = .ok (Utf8.encode t) := by
  have hnobody : ∀ i, (setup.after acts).file? i = none := by
    intro i
    refine Option.eq_none_iff_forall_ne_some.mpr fun file hopen => ?_
    have hlt : i < (setup.after acts).jobs.length := by
      obtain ⟨job, hi, -⟩ := Option.bind_eq_some_iff.mp hopen
      exact (List.getElem?_eq_some_iff.mp hi).1
    have hsome := hfinished i hlt
    rw [(h.closing_of_file? (by rw [hopen]; rfl)).1] at hsome
    cases hsome
  obtain ⟨s, hs⟩ := Option.ne_none_iff_exists'.mp
    (List.getLast?_eq_none_iff.not.mpr (List.ne_nil_of_mem hs))
  cases s with
  | refused i t => exact absurd (List.mem_of_getLast? hs) (hsucceeded i t)
  | written i t =>
    obtain ⟨batch, hturned⟩ := h.turned_of_written (List.mem_of_getLast? hs)
    exact ⟨⟨i, batch⟩, t, hturned, hs,
      (h.kept huntouched hone hsucceeded).last hnobody i t hs⟩

/-- What the artifact holds once everybody has answered, if nobody else touches it and no write fails.
The text of each batch that was compiled was written once.  If no two compiles had the artifact's file
open at once, the artifact holds the text that was written last.  That is the text of the largest epoch
that was compiled, if every batch was closed only after everybody who has closed an earlier one had
answered. -/
theorem artifact_holds_last (h : Run setup acts)
    (hpersists : setup.config.environment.persists = true) (huntouched : Untouched setup acts)
    (hsucceeded : ∀ i t, .refused i t ∉ setup.storings acts)
    (hfinished : ∀ i < (setup.after acts).jobs.length, ((setup.after acts).outcome? i).isSome) :
    (∀ c t, Turned (setup.notes acts) c t →
      Storing.about c.load (setup.storings acts) = [.written c.load t]) ∧
    (OneWriter setup acts → ∀ c t, Turned (setup.notes acts) c t → ∃ last t',
      Turned (setup.notes acts) last t' ∧
      (setup.storings acts).getLast? = some (.written last.load t') ∧
      (setup.after acts).disk.read setup.config.artifact.path = .ok (Utf8.encode t')) ∧
    (InTurn setup acts → HoldsNewest setup acts) := by
  have honce : ∀ c t, Turned (setup.notes acts) c t →
      Storing.about c.load (setup.storings acts) = [.written c.load t] :=
    fun c t hc => h.written_of_turned hpersists hsucceeded hfinished hc
  have hlast : OneWriter setup acts → ∀ c t, Turned (setup.notes acts) c t → ∃ last t',
      Turned (setup.notes acts) last t' ∧
      (setup.storings acts).getLast? = some (.written last.load t') ∧
      (setup.after acts).disk.read setup.config.artifact.path = .ok (Utf8.encode t') := by
    intro hone c t hc
    have hmem : Storing.written c.load t ∈ Storing.about c.load (setup.storings acts) := by
      rw [honce c t hc]
      exact List.mem_singleton_self _
    exact h.exists_last_written huntouched hone hsucceeded hfinished (Storing.mem_about.mp hmem).1
  refine ⟨honce, hlast, fun hturn c t hc hnewest => ?_⟩
  obtain ⟨⟨i, batch⟩, t', hturned, hs, hread⟩ := hlast (h.oneWriter_of_inTurn hturn) c t hc
  obtain ⟨early, batch', late, heq, hsilent⟩ := h.silent_of_inTurn hturn hs
  have hbatch : ⟨i, batch'⟩ ∈ closings (setup.notes acts) := by
    rw [heq]
    simp [Storing.subject]
  obtain rfl := h.closing_unique hturned.1 hbatch
  have hcase := heq ▸ hc.1
  rcases List.mem_append.mp hcase with hearly | hcase
  · -- Who has written last has closed a later batch than this one.
    have hordered := h.closings_ordered
    rw [heq] at hordered
    have hlt := (List.pairwise_append.mp hordered).2.2 c hearly _ List.mem_cons_self
    exact absurd (hnewest _ _ hturned) (Nat.not_le.mpr hlt)
  · rcases List.mem_cons.mp hcase with rfl | hcase
    · have hsame := (honce _ _ hc).symm.trans (honce _ _ hturned)
      cases hsame
      exact hread
    · have hnone := hsilent c hcase
      rw [honce c t hc] at hnone
      cases hnone

/-! ## Runs that are given -/

/-- What holds of all acts is checked one by one. -/
theorem forall_prefix_iff {P : List Act → Act → Prop} :
    (∀ before act, before ++ [act] <+: acts → P before act) ↔
      ∀ n, (h : n < acts.length) → P (acts.take n) acts[n] := by
  constructor
  · intro hall n h
    refine hall _ _ ?_
    rw [← List.take_succ_eq_append_getElem h]
    exact List.take_prefix ..
  · rintro hall before act ⟨more, rfl⟩
    have hn := hall before.length (by simp)
    simpa using hn

theorem forall_start_iff {P : List Act → Prop} :
    (∀ before, before <+: acts → P before) ↔ ∀ n < acts.length + 1, P (acts.take n) := by
  constructor
  · exact fun hall n _ => hall _ (List.take_prefix ..)
  · rintro hall before ⟨more, rfl⟩
    have hn := hall before.length (by rw [List.length_append]; omega)
    simpa using hn

theorem untouched_of_take
    (hkept : ∀ n, (h : n < acts.length) → acts[n].outside (setup.after (acts.take n)) = true →
      (acts[n].apply (setup.after (acts.take n))).disk.workingDirectory =
          (setup.after (acts.take n)).disk.workingDirectory ∧
        (acts[n].apply (setup.after (acts.take n))).disk.read setup.config.artifact.path =
          (setup.after (acts.take n)).disk.read setup.config.artifact.path)
    (hreal : ∀ n < acts.length + 1,
      (setup.after (acts.take n)).disk.leadsToNull setup.config.artifact.path = false) :
    Untouched setup acts where
  kept := forall_prefix_iff.mpr hkept
  real := forall_start_iff.mpr hreal

/-- Only a load that was submitted may have a file open. -/
theorem lt_of_file? (h : (p.file? i).isSome) : i < p.jobs.length := by
  obtain ⟨file, hfile⟩ := Option.isSome_iff_exists.mp h
  obtain ⟨job, hi, -⟩ := Option.bind_eq_some_iff.mp hfile
  exact (List.getElem?_eq_some_iff.mp hi).1

theorem alone_iff : Alone p ↔ ∀ i < p.jobs.length, ∀ j < p.jobs.length,
    (p.file? i).isSome → (p.file? j).isSome → i = j :=
  ⟨fun h i _ j _ => h i j, fun h i j hi hj => h i (lt_of_file? hi) j (lt_of_file? hj) hi hj⟩

instance (p : Pipeline) : Decidable (Alone p) :=
  decidable_of_iff _ alone_iff.symm

/-- An authoritative process whose compiler gives the replies. -/
def scriptedSetup (replies : List ScriptedReply) : Setup :=
  { keepingSetup with compiler := ⟨.scripted replies, []⟩ }

/-- Two batches, of which the second one is closed when the first one was compiled and written. -/
def settledActs : List Act :=
  together (scriptedSetup []) [(⟨"s/x", "a", []⟩, 0), (⟨"s/y", "b", []⟩, 9)] 60

/-- An authoritative process whose first compile takes longer than its second one. -/
def overtakenSetup : Setup :=
  scriptedSetup [⟨8, .ok (0, [], some "old")⟩, ⟨0, .ok (0, [], some "new")⟩]

/-- Two batches that are compiled beside each other. -/
def overtakenActs : List Act :=
  together overtakenSetup [(⟨"s/x", "a", []⟩, 0), (⟨"s/y", "b", []⟩, 3)] 60

theorem polled_overtaken : Polled overtakenSetup overtakenActs none :=
  polled_of_start (by decide +kernel)

theorem untouched_overtaken : Untouched overtakenSetup overtakenActs :=
  untouched_of_take (by decide +kernel) (by decide +kernel)

theorem storings_overtaken :
    overtakenSetup.storings overtakenActs = [.written 1 "new", .written 0 "old"] := by
  decide +kernel

theorem closings_overtaken : closings (overtakenSetup.notes overtakenActs) =
    [⟨0, 1, 1, "a"⟩, ⟨1, 2, 1, "b"⟩] := by
  decide +kernel

theorem turned_overtaken : Turned (overtakenSetup.notes overtakenActs) ⟨1, 2, 1, "b"⟩ "new" :=
  ⟨by simp [closings_overtaken], by decide +kernel, .success "new", by decide +kernel, rfl, rfl⟩

/-- When the second batch is closed after the first one was written, the artifact holds the text of the
second one.  When they are compiled beside each other, it holds the one that was written last. -/
theorem artifact_holds_last_settled :
    (InTurn (scriptedSetup []) settledActs ∧ HoldsNewest (scriptedSetup []) settledActs ∧
      ((scriptedSetup []).after settledActs).disk.read "src/css/dev/dev-css.css" =
        .ok (Utf8.encode "b")) ∧
    OneWriter overtakenSetup overtakenActs ∧
      (overtakenSetup.after overtakenActs).disk.read "src/css/dev/dev-css.css" =
        .ok (Utf8.encode "old") := by
  refine ⟨?_, ?_⟩
  · have hpolled : Polled (scriptedSetup []) settledActs none :=
      polled_of_start (by decide +kernel)
    have huntouched : Untouched (scriptedSetup []) settledActs :=
      untouched_of_take (by decide +kernel) (by decide +kernel)
    have hturn : InTurn (scriptedSetup []) settledActs :=
      forall_prefix_iff.mpr (by decide +kernel)
    have hstorings : (scriptedSetup []).storings settledActs =
        [.written 0 "a", .written 1 "b"] := by
      decide +kernel
    obtain ⟨-, -, hnewest⟩ := artifact_holds_last hpolled.run (by decide) huntouched
      (by simp [hstorings]) (by decide +kernel)
    exact ⟨hturn, hnewest hturn, by decide +kernel⟩
  · have hone : OneWriter overtakenSetup overtakenActs :=
      forall_start_iff.mpr (by decide +kernel)
    obtain ⟨-, hlast, -⟩ := artifact_holds_last polled_overtaken.run (by decide)
      untouched_overtaken (by simp [storings_overtaken]) (by decide +kernel)
    obtain ⟨last, t, -, hwritten, hread⟩ := hlast hone _ _ turned_overtaken
    rw [storings_overtaken] at hwritten
    obtain ⟨-, rfl⟩ := Storing.written.inj (Option.some.inj hwritten)
    exact ⟨hone, hread⟩

/-- The text of an earlier epoch may be written over that of a later one. -/
theorem artifact_outdated : ¬∀ (setup : Setup) (acts : List Act), Polled setup acts none →
    setup.config.environment.persists = true → Untouched setup acts →
    (∀ i t, .refused i t ∉ setup.storings acts) →
    (∀ i < (setup.after acts).jobs.length, ((setup.after acts).outcome? i).isSome) →
    HoldsNewest setup acts := by
  intro hall
  have hnewest := hall overtakenSetup overtakenActs polled_overtaken (by decide)
    untouched_overtaken (by simp [storings_overtaken]) (by decide +kernel)
  have hread := hnewest _ _ turned_overtaken (by
    rintro c' t' ⟨hc', -⟩
    rw [closings_overtaken] at hc'
    simp only [List.mem_cons, List.not_mem_nil, or_false] at hc'
    rcases hc' with rfl | rfl <;> decide)
  have hold : (overtakenSetup.after overtakenActs).disk.read overtakenSetup.config.artifact.path =
      .ok (Utf8.encode "old") := by
    decide +kernel
  rw [hold] at hread
  exact absurd hread (by decide +kernel)

/-- An authoritative process in which two compiles come to an end at the same time. -/
def tornSetup : Setup :=
  scriptedSetup [⟨1, .ok (0, [], some "x;y;")⟩, ⟨0, .ok (0, [], some "z;")⟩]

/-- The first one has opened the artifact's file, and the second one opens it, too, before the first
one writes. -/
def tornActs : List Act :=
  let acts := together tornSetup [(⟨"s/x", "a", []⟩, 0), (⟨"s/y", "b", []⟩, 1)] 60
  acts.take 24 ++ [.step (.job 1), .step (.job 1), .step (.job 0)] ++ acts.drop 27

/-- Two writes at once may leave a text that the compiler never gave. -/
theorem artifact_torn : ¬∀ (setup : Setup) (acts : List Act), Run setup acts →
    setup.config.environment.persists = true → Untouched setup acts →
    (∀ i t, .refused i t ∉ setup.storings acts) →
    (∀ i < (setup.after acts).jobs.length, ((setup.after acts).outcome? i).isSome) →
    ∀ c t, Turned (setup.notes acts) c t → ∃ c' t', Turned (setup.notes acts) c' t' ∧
      (setup.after acts).disk.read setup.config.artifact.path = .ok (Utf8.encode t') := by
  intro hall
  have hrun : Run tornSetup tornActs := run_of_possible (forall_prefix_iff.mpr (by decide +kernel))
  have hstorings : tornSetup.storings tornActs = [.written 0 "x;y;", .written 1 "z;"] := by
    decide +kernel
  have hclosings : closings (tornSetup.notes tornActs) = [⟨0, 1, 1, "a"⟩, ⟨1, 2, 1, "b"⟩] := by
    decide +kernel
  have hsucceeded : ∀ i t, .refused i t ∉ tornSetup.storings tornActs := by simp [hstorings]
  have hfinished : ∀ i < (tornSetup.after tornActs).jobs.length,
      ((tornSetup.after tornActs).outcome? i).isSome := by
    decide +kernel
  have hturned : Turned (tornSetup.notes tornActs) ⟨1, 2, 1, "b"⟩ "z;" :=
    ⟨by simp [hclosings], by decide +kernel, .success "z;", by decide +kernel, rfl, rfl⟩
  obtain ⟨c, t, hc, hread⟩ := hall tornSetup tornActs hrun (by decide)
    (untouched_of_take (by decide +kernel) (by decide +kernel)) hsucceeded hfinished _ _ hturned
  have htorn : (tornSetup.after tornActs).disk.read tornSetup.config.artifact.path =
      .ok (Utf8.encode "z;y;") := by
    decide +kernel
  rw [htorn] at hread
  -- what was written is one of the two texts
  have honce := hrun.written_of_turned (by decide) hsucceeded hfinished hc
  have hmem : Storing.written c.load t ∈ tornSetup.storings tornActs :=
    (Storing.mem_about.mp (honce ▸ List.mem_singleton_self _)).1
  simp only [hstorings, List.mem_cons, Storing.written.injEq, List.not_mem_nil, or_false] at hmem
  rcases hmem with ⟨-, rfl⟩ | ⟨-, rfl⟩ <;> exact absurd hread (by decide +kernel)

end Pipeline

end StyleBatch
