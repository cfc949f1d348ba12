import StyleBatch.Proofs.Pipeline.Closings

/-!
# What the log says about batches

The log has an event for each batch that was closed, in the order of closing, with what the batch
was and who has closed it.  Outside the authoritative process there is one event more after the
first of them, since that batch is not compiled; and there the batch knows that one was closed.

* `bookings`: the events for closed batches.
* `Run.departing`: who is on its way out is named after its load.
* `Run.booked`: the events of the log, and the flag.
-/

namespace StyleBatch

open Notes

/-- What is said about batches, without numbers and times. -/
def Log.bookings (log : Log) : List EventKind :=
  log.batchEvents.map Event.kind

theorem Log.bookings_emit (log : Log) (kind : EventKind) :
    (log.emit kind).bookings = log.bookings ++ if kind.isBatchEvent then [kind] else [] := by
  rw [bookings, batchEvents_emit, List.map_append, bookings]
  split <;> rfl

/-- What is said about a closed batch. -/
def Closing.event (loads : List Load) (c : Closing) : EventKind :=
  .batchClosed c.batch.epoch c.batch.members ((loads[c.load]?.map Load.address).getD [])
    (Text.byteSize c.batch.source) (Digest.ofText c.batch.source)

/-- What is said about closed batches. -/
def bookings (authoritative : Bool) (loads : List Load) : List Closing → List EventKind
  | [] => []
  | first :: rest => first.event loads ::
      (if authoritative then [] else [.firstCompileSkipped first.batch.epoch]) ++
        rest.map (Closing.event loads)

theorem bookings_concat (authoritative : Bool) (loads : List Load) (cs : List Closing)
    (c : Closing) : bookings authoritative loads (cs ++ [c]) =
      bookings authoritative loads cs ++ c.event loads ::
        if cs = [] ∧ authoritative = false then [.firstCompileSkipped c.batch.epoch] else [] := by
  cases cs with
  | nil => cases authoritative <;> rfl
  | cons first rest => simp [bookings]

/-- Loads that are submitted later change nothing. -/
theorem bookings_append {authoritative : Bool} {loads : List Load} {cs : List Closing}
    (h : ∀ c ∈ cs, c.load < loads.length) (more : List Load) :
    bookings authoritative (loads ++ more) cs = bookings authoritative loads cs := by
  have hevent : ∀ c ∈ cs, c.event (loads ++ more) = c.event loads := by
    intro c hc
    rw [Closing.event, List.getElem?_append_left (h c hc), Closing.event]
  cases cs with
  | nil => rfl
  | cons first rest =>
    rw [bookings, bookings, hevent first List.mem_cons_self,
      List.map_congr_left fun c hc => hevent c (List.mem_cons_of_mem _ hc)]

theorem Departure.closings_note {i : Nat} {d : Departure} {b : Batching}
    (hd : d.phase = .queued) :
    closings (d.note i b).toList = ((d.contribution.closing b.batch).map (⟨i, ·⟩)).toList := by
  rw [note, hd, Contribution.closing]
  dsimp only
  rw [Option.toList_some, closings]
  cases h : ((d.contribution.leave b.batch).1.filter d.contribution.closes) <;>
    simp [Note.closing?, h]

/-- Only who leaves closes a batch. -/
theorem Departure.closings_note_of_ne {i : Nat} {d : Departure} {b : Batching}
    (hd : d.phase ≠ .queued) : closings (d.note i b).toList = [] := by
  cases hnote : d.note i b with
  | none => rfl
  | some x =>
    rw [note] at hnote
    split at hnote
    · exact absurd ‹_› hd
    · have hidle := (Invocation.note_idle hnote).1
      cases x with
      | joined | left => exact hidle.elim
      | _ => rfl
    · cases hnote

/-- What a member on its way out has written down of batches: nothing, or a batch that it closes. -/
theorem Departure.Goes.booked {d : Departure} {b : Batching} {world : World}
    {out : Departure × Batching × World} (h : Goes d b world out) (i : Nat) :
    (closings (d.note i b).toList = [] ∧ out.2.2.log.bookings = world.log.bookings ∧
      (b.environment.authoritative = false →
        out.2.1.batch.hasCompiled = b.batch.hasCompiled)) ∨
    ∃ closed, closings (d.note i b).toList = [⟨i, closed⟩] ∧
      out.2.2.log.bookings = world.log.bookings ++ d.closedEvent closed ::
        (if b.batch.hasCompiled = false ∧ b.environment.authoritative = false
          then [.firstCompileSkipped closed.epoch] else []) ∧
      (b.environment.authoritative = false → out.2.1.batch.hasCompiled = true) := by
  have hfarewell : (d.farewell world).log.bookings = world.log.bookings := by
    rw [Log.bookings, batchEvents_farewell, Log.bookings]
  cases h with
  | left hphase hclosing =>
    refine Or.inl ⟨?_, hfarewell, fun _ => hasCompiled_leave _ _⟩
    rw [closings_note hphase, hclosing]
    rfl
  | @closed closed batch hphase hclosing _ _ hcompiled hcompile =>
    refine Or.inr ⟨closed, ?_, ?_, fun hauthoritative => ?_⟩
    · rw [closings_note hphase, hclosing]
      rfl
    · have hnot : ¬(b.batch.hasCompiled = false ∧ b.environment.authoritative = false) := by
        rintro ⟨hcompiled, hauthoritative⟩
        simp [hcompiled, hauthoritative] at hcompile
      rw [World.emit, Log.bookings_emit, hfarewell, if_neg hnot]
      rfl
    · simp [hcompiled, hauthoritative]
  | @skipped closed batch hphase hclosing _ _ hcompiled hauthoritative hfirst =>
    refine Or.inr ⟨closed, ?_, ?_, fun _ => hcompiled⟩
    · rw [closings_note hphase, hclosing]
      rfl
    · rw [World.emit, Log.bookings_emit, World.emit, Log.bookings_emit, hfarewell,
        if_pos (show b.batch.hasCompiled = false ∧ _ from ⟨hfirst, hauthoritative⟩),
        List.append_assoc]
      rfl
  | @invoked x hphase hx =>
    have hdoes := x.does_step i b.workshop world hx
    refine Or.inl ⟨closings_note_of_ne (by simp [hphase]), ?_, fun _ => rfl⟩
    exact congrArg (List.map Event.kind) hdoes.batchEvents
  | failed hphase => exact Or.inl ⟨closings_note_of_ne (by simp [hphase]), rfl, fun _ => rfl⟩
  | compiled hphase =>
    refine Or.inl ⟨closings_note_of_ne (by simp [hphase]), rfl, fun hauthoritative => ?_⟩
    simp [hauthoritative]

/-- The flag that something was compiled is never taken back. -/
theorem Departure.Goes.hasCompiled {d : Departure} {b : Batching} {world : World}
    {out : Departure × Batching × World} (h : Goes d b world out)
    (hcompiled : b.batch.hasCompiled = true) : out.2.1.batch.hasCompiled = true := by
  cases h with
  | left => exact (hasCompiled_leave _ _).trans hcompiled
  | closed _ _ _ _ hflag => simp [hflag, hcompiled]
  | skipped _ _ _ _ hflag => exact hflag
  | invoked | failed => exact hcompiled
  | compiled => simp [hcompiled]

namespace Pipeline

variable {setup : Setup} {acts : List Act}

/-- The flag that something was compiled is never taken back. -/
theorem hasCompiled_apply {p : Pipeline} (h : p.batching.batch.hasCompiled = true) (act : Act) :
    (act.apply p).batching.batch.hasCompiled = true := by
  cases act with
  | submit | elsewhere => exact h
  | step task =>
    rcases leaving_or_apart p task with ⟨i, d, rfl, hleaving⟩ | hapart
    · rw [Act.apply, (step_of_leaving hleaving).1]
      exact (d.goes_step p.batching p.resolution.world hleaving.2).hasCompiled h
    · exact hapart.books.hasCompiled.trans h

/-- Who is on its way out has been so before, or sets out under the address of its load. -/
theorem Move.departs {p p' : Pipeline} {task : Task} {note : Option Note}
    (h : Move p task note p') {i : Nat} {job : Job} {d : Departure} (hi : p'.jobs[i]? = some job)
    (hphase : job.phase = .leaving d) : ∃ old, p.jobs[i]? = some old ∧
      (d.address = address p old ∨ ∃ d', old.phase = .leaving d' ∧ d.address = d'.address) := by
  have hset : ∀ {k : Nat} {old : Job} {phase : JobPhase}, p.jobs[k]? = some old →
      p'.jobs = p.jobs.modify k (fun job => { job with phase }) →
      (∀ d, phase = .leaving d → d.address = address p old ∨
        ∃ d', old.phase = .leaving d' ∧ d.address = d'.address) →
      ∃ old, p.jobs[i]? = some old ∧
        (d.address = address p old ∨ ∃ d', old.phase = .leaving d' ∧ d.address = d'.address) := by
    intro k old phase hk hjobs hnew
    rcases getElem?_modify_cases hk (hjobs ▸ hi) with ⟨rfl, rfl⟩ | ⟨-, hi⟩
    · exact ⟨old, hk, hnew d hphase⟩
    · exact ⟨job, hi, Or.inr ⟨d, hphase, rfl⟩⟩
  cases h with
  | resolution => exact ⟨job, hi, Or.inr ⟨d, hphase, rfl⟩⟩
  | failed hk | finished hk => exact hset hk rfl fun d hd => Or.inl (by cases hd; rfl)
  | left hk hphase' | compiling hk hphase' | compiled hk hphase' =>
    exact hset hk rfl fun d hd => Or.inr ⟨_, hphase', by cases hd; rfl⟩
  | @waited k old phase hk hwaits =>
    refine hset hk rfl fun d hd => ?_
    subst hd
    generalize old.phase = before at hwaits
    cases hwaits
  | deferred hk | joined hk | begun hk | inlined hk | resolved _ hk | answered hk =>
    exact hset hk rfl fun _ hd => by cases hd

/-- A job is about the load with its number. -/
theorem Run.address (h : Run setup acts) {i : Nat} {job : Job}
    (hi : (setup.after acts).jobs[i]? = some job) :
    (submissions acts)[i]?.map Load.address = some (address (setup.after acts) job) := by
  have hlinked := h.reached.linked
  have hlength : i < (setup.after acts).resolution.loads.length := by
    rw [hlinked.length_loads, ← hlinked.length_jobs]
    exact (List.getElem?_eq_some_iff.mp hi).1
  rw [Pipeline.address, (hlinked.works i job hi).1, ← List.getElem?_map, ← h.equipped.addresses,
    List.getElem?_map, List.getElem?_eq_getElem hlength]
  rfl

/-- Who is on its way out is named after its load. -/
theorem Run.departing (h : Run setup acts) {i : Nat} {job : Job} {d : Departure}
    (hi : (setup.after acts).jobs[i]? = some job) (hphase : job.phase = .leaving d) :
    (submissions acts)[i]?.map Load.address = some d.address := by
  induction h generalizing job d with
  | start => cases hi
  | @act acts act hrun hpossible ih =>
    rw [after_concat] at hi
    rw [submissions_append]
    cases act with
    | submit mode load delay =>
      simp only [Act.apply, Pipeline.submit, List.getElem?_append] at hi
      split at hi
      · have hold := ih hi hphase
        rw [Option.map_eq_some_iff] at hold ⊢
        obtain ⟨load', hload', heq⟩ := hold
        exact ⟨load', getElem?_append_of_eq_some hload' _, heq⟩
      · rw [List.mem_singleton.mp (List.mem_of_getElem? hi)] at hphase
        cases hphase
    | elsewhere disk kind =>
      have hnone : submissions [.elsewhere disk kind] = [] := rfl
      rw [hnone, List.append_nil]
      exact ih hi hphase
    | step task =>
      have hnone : submissions [.step task] = [] := rfl
      rw [hnone, List.append_nil]
      obtain ⟨old, hold, hd | ⟨d', hphase', hd⟩⟩ :=
        (move_of_canStep hpossible).departs hi hphase
      · rw [hd]
        exact hrun.address hold
      · rw [hd]
        exact ih hold hphase'

/-- The events for closed batches are in the log; and outside the authoritative process the batch
knows whether one was closed. -/
structure Booked (setup : Setup) (acts : List Act) : Prop where
  events : (setup.after acts).log.bookings =
    bookings setup.config.environment.authoritative (submissions acts)
      (closings (setup.notes acts))
  hasCompiled : setup.config.environment.authoritative = false →
    ((setup.after acts).batching.batch.hasCompiled = true ↔ closings (setup.notes acts) ≠ [])

/-- Who has closed a batch is one of the loads. -/
theorem Run.load_lt (h : Run setup acts) {c : Closing} (hc : c ∈ closings (setup.notes acts)) :
    c.load < (submissions acts).length := by
  obtain ⟨i, batch⟩ := c
  obtain ⟨contribution, hleft, -⟩ := mem_closings.mp hc
  rw [← h.reached.linked.length_jobs]
  exact h.reached.chronicle.subject_lt hleft

/-- A step of a member on its way out is booked. -/
theorem Booked.goes (h : Booked setup acts) (hrun : Run setup acts) {i : Nat} {d : Departure}
    (hleaving : Leaving (setup.after acts) i d) : Booked setup (acts ++ [.step (.job i)]) := by
  obtain ⟨hstep, hnote, -⟩ := step_of_leaving hleaving
  obtain ⟨⟨job, hi, hphase⟩, hd⟩ := hleaving
  have hgoes := d.goes_step (setup.after acts).batching (setup.after acts).resolution.world hd
  have henvironment := hrun.equipped.environment
  have hsubmissions : submissions (acts ++ [.step (.job i)]) = submissions acts := by
    rw [submissions_append]
    exact List.append_nil _
  have hnotes : closings (setup.notes (acts ++ [.step (.job i)])) =
      closings (setup.notes acts) ++
        closings (d.note i (setup.after acts).batching).toList := by
    rw [notes_concat, closings_append, Act.read, hnote]
  have hlog : (setup.after (acts ++ [.step (.job i)])).log.bookings =
      (d.step (setup.after acts).batching
        (setup.after acts).resolution.world).2.2.log.bookings := by
    rw [after_concat, Act.apply, hstep]
    rfl
  have hflag : (setup.after (acts ++ [.step (.job i)])).batching.batch.hasCompiled =
      (d.step (setup.after acts).batching
        (setup.after acts).resolution.world).2.1.batch.hasCompiled := by
    rw [after_concat, Act.apply, hstep]
    rfl
  have hevents : (setup.after acts).resolution.world.log.bookings = _ := h.events
  rcases hgoes.booked i with ⟨hclosings, hbookings, hcompiled⟩ |
    ⟨closed, hclosings, hbookings, hcompiled⟩
  · rw [hclosings, List.append_nil] at hnotes
    refine ⟨?_, fun hauthoritative => ?_⟩
    · rw [hlog, hbookings, hnotes, hsubmissions, hevents]
    · rw [hflag, hcompiled (henvironment ▸ hauthoritative), hnotes]
      exact h.hasCompiled hauthoritative
  · rw [hclosings] at hnotes
    refine ⟨?_, fun hauthoritative => ?_⟩
    · have hevent : d.closedEvent closed = Closing.event (submissions acts) ⟨i, closed⟩ := by
        rw [Closing.event, hrun.departing hi hphase]
        rfl
      have hfirst : (setup.after acts).batching.batch.hasCompiled = false ∧
          setup.config.environment.authoritative = false ↔
          closings (setup.notes acts) = [] ∧ setup.config.environment.authoritative = false := by
        refine and_congr_left fun hauthoritative => ?_
        rw [← Bool.not_eq_true, h.hasCompiled hauthoritative, not_not]
      rw [hlog, hbookings, hnotes, hsubmissions, hevents, bookings_concat, hevent, henvironment]
      simp only [hfirst]
    · rw [hflag, hnotes]
      exact iff_of_true (hcompiled (henvironment ▸ hauthoritative)) (by simp)

/-- The closed batches are booked. -/
theorem Run.booked (h : Run setup acts) : Booked setup acts := by
  induction h with
  | start => exact ⟨rfl, fun _ => iff_of_false Bool.false_ne_true fun h => h rfl⟩
  | @act acts act hrun hpossible ih =>
    have hquiet : ∀ {act : Act}, (act.apply (setup.after acts)).log.bookings =
          (setup.after acts).log.bookings →
        (act.apply (setup.after acts)).batching.batch.hasCompiled =
          (setup.after acts).batching.batch.hasCompiled →
        closings (act.read note (setup.after acts)) = [] → Booked setup (acts ++ [act]) := by
      intro act hlog hcompiled hnote
      constructor
      · rw [after_concat, notes_concat, closings_append, hnote, List.append_nil,
          submissions_append, bookings_append fun c hc => hrun.load_lt hc, hlog, ih.events]
      · rw [after_concat, notes_concat, closings_append, hnote, List.append_nil, hcompiled]
        exact ih.hasCompiled
    cases act with
    | submit mode load delay => exact hquiet rfl rfl rfl
    | elsewhere disk kind => exact hquiet rfl rfl rfl
    | step task =>
      rcases leaving_or_apart (setup.after acts) task with ⟨i, d, rfl, hleaving⟩ | hapart
      · exact ih.goes hrun hleaving
      · exact hquiet (congrArg (List.map Event.kind) hapart.books.batchEvents)
          hapart.books.hasCompiled hapart.closings

end Pipeline

end StyleBatch
