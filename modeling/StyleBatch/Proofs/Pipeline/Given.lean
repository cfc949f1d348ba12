import StyleBatch.Proofs.Pipeline.Bookings
import StyleBatch.Proofs.Pipeline.Fate
import StyleBatch.Proofs.Pipeline.Turns

/-!
# Who is given what

What a load was given on its way out, or answered without joining, stays.  So the flag that something
was compiled is read off the loads: in the authoritative process it is set as soon as a member has
been given a compiled text, and the member that has closed a batch which is not compiled has been
given the empty text.

* `Given`: a load was given a text, and answers with it.
* `Run.skipped`: the first closed batch outside the authoritative process.
* `Run.given_of_hasCompiled`, `Run.hasCompiled_of_given`: the flag in the authoritative process.
-/

namespace StyleBatch

open Notes

namespace Notes

variable {notes : List Note} {i : Nat} {source t : Text}

theorem Compiled.of_append {more : List Note} (h : Compiled (notes ++ more) i source t)
    (hcalled : ∀ source, .called i source ∉ more)
    (hanswered : ∀ source answer, .answered i source answer ∉ more) : Compiled notes i source t := by
  obtain ⟨hc, report, ha, hreport⟩ := h
  exact ⟨(List.mem_append.mp hc).resolve_right (hcalled _), report,
    (List.mem_append.mp ha).resolve_right (hanswered _ _), hreport⟩

theorem Compiled.append (h : Compiled notes i source t) (more : List Note) :
    Compiled (notes ++ more) i source t := by
  obtain ⟨hcalled, report, hanswered, hreport⟩ := h
  exact ⟨List.mem_append_left _ hcalled, report, List.mem_append_left _ hanswered, hreport⟩

end Notes

namespace Pipeline

/-- The load numbered `i` was given the text on its way out, and answers with it. -/
def Given (p : Pipeline) (i : Nat) (d : Departure) (text : Text) : Prop :=
  d.phase = .settled text ∧ ∃ job, p.jobs[i]? = some job ∧
    (job.phase = .leaving d ∨ job.phase = .settled (answerOf d text))

variable {setup : Setup} {acts : List Act} {p : Pipeline} {i : Nat}

theorem Given.step {d : Departure} {text : Text} (h : Given p i d text) (task : Task) :
    Given (step task p) i d text := by
  obtain ⟨hd, job, hi, hphase⟩ := h
  by_cases htask : task = .job i
  · subst htask
    have hresult := Departure.result?_eq_some.mpr hd
    rcases hphase with hphase | hphase
    · refine ⟨hd, { job with phase := .settled (answerOf d text) }, ?_, Or.inr rfl⟩
      simp only [Pipeline.step, hi, stepJob, hphase, hresult]
      rw [getElem?_setJob, if_pos rfl, hi, Option.map_some]
    · refine ⟨hd, job, ?_, Or.inr hphase⟩
      simp only [Pipeline.step, hi, stepJob, hphase]
  · exact ⟨hd, job, by rw [getElem?_step_of_ne p htask, hi], hphase⟩

theorem Given.apply {d : Departure} {text : Text} (h : Given p i d text) (act : Act) :
    Given (act.apply p) i d text := by
  cases act with
  | submit mode load delay =>
    obtain ⟨hd, job, hi, hphase⟩ := h
    exact ⟨hd, job, getElem?_append_of_eq_some hi _, hphase⟩
  | elsewhere disk kind => exact h
  | step task => exact h.step task

/-- A step of another job gives it nothing. -/
theorem Given.of_step {d : Departure} {text : Text} {task : Task}
    (h : Given (Pipeline.step task p) i d text) (htask : task ≠ .job i) : Given p i d text := by
  obtain ⟨hd, job, hi, hphase⟩ := h
  rw [getElem?_step_of_ne p htask] at hi
  exact ⟨hd, job, hi, hphase⟩

/-- The way out ends with the text that was given. -/
theorem given_went {out : Departure × Batching × World} {job : Job} {text : Text}
    (hi : p.jobs[i]? = some job) (hout : out.1.phase = .settled text) :
    Given (went p i out) i out.1 text :=
  ⟨hout, _, getElem?_went hi out, Or.inl rfl⟩

/-- Outside the authoritative process, the step that closes the first batch gives the empty text. -/
theorem skipped_of_goes {d : Departure} {b : Batching} {world : World}
    {out : Departure × Batching × World} {first : Closing} {rest : List Closing}
    (hgoes : Departure.Goes d b world out) (hauthoritative : b.environment.authoritative = false)
    (hfirst : b.batch.hasCompiled = false)
    (hclosings : closings (d.note i b).toList = first :: rest) :
    first.load = i ∧ out.1.phase = .settled [] ∧
      .left i out.1.contribution (some first.batch) ∈ (d.note i b).toList := by
  cases hgoes with
  | left hqueued hclosing =>
    rw [Departure.closings_note hqueued, hclosing] at hclosings
    cases hclosings
  | closed _ _ _ _ _ hcompile =>
    rw [hauthoritative, hfirst] at hcompile
    cases hcompile
  | skipped hqueued hclosing =>
    rw [Departure.closings_note hqueued, hclosing] at hclosings
    cases hclosings
    obtain ⟨hclosed, -⟩ := Option.filter_eq_some_iff.mp hclosing
    refine ⟨rfl, rfl, ?_⟩
    rw [Departure.note, hqueued, hclosed]
    simp
  | invoked hcompiling | failed hcompiling | compiled hcompiling =>
    rw [Departure.closings_note_of_ne (by simp [hcompiling])] at hclosings
    cases hclosings

/-- Outside the authoritative process, the member that has closed the first batch was given the empty
text. -/
theorem Run.skipped (h : Run setup acts)
    (hauthoritative : setup.config.environment.authoritative = false) {first : Closing}
    {rest : List Closing} (hclosings : closings (setup.notes acts) = first :: rest) :
    ∃ d : Departure, .left first.load d.contribution (some first.batch) ∈ setup.notes acts ∧
      Given (setup.after acts) first.load d [] := by
  induction h generalizing rest with
  | start => cases hclosings
  | @act acts act hrun hpossible ih =>
    rw [notes_concat, closings_append] at hclosings
    rw [after_concat, notes_concat]
    -- What was there before stays as it is.
    have hkept : ∀ {rest}, closings (setup.notes acts) = first :: rest →
        ∃ d : Departure, .left first.load d.contribution (some first.batch) ∈
          setup.notes acts ++ act.read note (setup.after acts) ∧
          Given (act.apply (setup.after acts)) first.load d [] := by
      intro rest hold
      obtain ⟨d, hleft, hgiven⟩ := ih hold
      exact ⟨d, List.mem_append_left _ hleft, hgiven.apply act⟩
    cases hold : closings (setup.notes acts) with
    | cons first' rest' =>
      rw [hold] at hclosings
      cases hclosings
      exact hkept hold
    | nil =>
      rw [hold, List.nil_append] at hclosings
      cases act with
      | submit | elsewhere => cases hclosings
      | step task =>
        rw [Act.read] at hclosings ⊢
        rcases leaving_or_apart (setup.after acts) task with ⟨i, d, rfl, hleaving⟩ | hapart
        · obtain ⟨hstep, hnote, -⟩ := step_of_leaving hleaving
          obtain ⟨⟨job, hi, -⟩, hd⟩ := hleaving
          have hgoes := d.goes_step (setup.after acts).batching
            (setup.after acts).resolution.world hd
          have hfirst : (setup.after acts).batching.batch.hasCompiled = false := by
            rw [← Bool.not_eq_true, hrun.booked.hasCompiled hauthoritative, hold]
            simp
          rw [hnote] at hclosings ⊢
          rw [Act.apply, hstep]
          obtain ⟨rfl, hempty, hleft⟩ := skipped_of_goes hgoes
            (hrun.equipped.environment ▸ hauthoritative) hfirst hclosings
          exact ⟨_, List.mem_append_right _ hleft, given_went hi hempty⟩
        · rw [hapart.closings] at hclosings
          cases hclosings

/-! ## What was compiled -/

/-- Who has called the compiler is on its way out, or has answered. -/
theorem Chronicle.phase_of_called {notes : List Note} (h : Chronicle notes p) {source : Text}
    (hcalled : .called i source ∈ notes) : ∃ job, p.jobs[i]? = some job ∧
      ((∃ d, job.phase = .leaving d) ∨ ∃ o, job.phase = .settled o) := by
  have hown : .called i source ∈ about i notes := mem_about.mpr ⟨hcalled, rfl⟩
  cases hi : p.jobs[i]? with
  | none =>
    rw [h.absent i (List.getElem?_eq_none_iff.mp hi)] at hown
    cases hown
  | some job =>
    refine ⟨job, rfl, ?_⟩
    have hcourse := h.job i job hi
    rw [Job.Course] at hcourse
    split at hcourse
    · rw [hcourse] at hown
      cases hown
    · split at hcourse
      · rw [hcourse] at hown
        cases hown
      · obtain ⟨e, he⟩ := hcourse
        rw [he] at hown
        cases List.mem_singleton.mp hown
    · obtain ⟨e, he⟩ := hcourse
      rw [he] at hown
      cases List.mem_singleton.mp hown
    · exact Or.inl ⟨_, ‹_›⟩
    · exact Or.inr ⟨_, ‹_›⟩

/-- Who has called the compiler is given nothing by a step apart from batches. -/
theorem Given.of_apart {notes : List Note} {d : Departure} {source text : Text} {task : Task}
    (h : Given (Pipeline.step task p) i d text) (hapart : Apart p task)
    (hchronicle : Chronicle notes p) (hcalled : .called i source ∈ notes) :
    ∃ d text, Given p i d text := by
  by_cases htask : task = .job i
  · subst htask
    obtain ⟨job, hi, ⟨d', hphase⟩ | ⟨o, hphase⟩⟩ := hchronicle.phase_of_called hcalled
    · obtain ⟨text', hresult⟩ := Option.ne_none_iff_exists'.mp
        (hapart.answered i job d' rfl hi hphase)
      exact ⟨d', text', Departure.result?_eq_some.mp hresult, job, hi, Or.inl hphase⟩
    · have hsame : Pipeline.step (.job i) p = p := by
        simp only [Pipeline.step, hi, stepJob, hphase]
      rw [hsame] at h
      exact ⟨d, text, h⟩
  · exact ⟨d, text, h.of_step htask⟩

/-- In the authoritative process, the step that sets the flag gives a member the text that the
compiler gave for its batch. -/
theorem compiled_of_goes {notes : List Note} {d : Departure} {b : Batching} {world : World}
    {out : Departure × Batching × World} {e : Nat} {rest : List Note} {stored : List Storing}
    (hgoes : Departure.Goes d b world out) (hauthoritative : b.environment.authoritative = true)
    (hown : about i notes = .joined i e :: rest)
    (hfate : Departure.Fate b.environment i d.contribution d.phase rest stored)
    (hold : ¬b.batch.hasCompiled = true) (hcompiled : out.2.1.batch.hasCompiled = true) :
    ∃ source text, Compiled notes i source text ∧ out.1.phase = .settled text := by
  cases hgoes with
  | left => exact absurd ((Departure.hasCompiled_leave _ _).symm.trans hcompiled) hold
  | closed _ _ _ _ hflag =>
    rw [hauthoritative] at hflag
    exact absurd ((hflag.trans (Bool.or_false _)).symm.trans hcompiled) hold
  | skipped _ _ _ _ _ hfollower =>
    rw [hauthoritative] at hfollower
    cases hfollower
  | invoked | failed => exact absurd hcompiled hold
  | @compiled x text hcompiling hx =>
    rw [hcompiling] at hfate
    cases hfate with
    | @compiling closed _ own _ _ _ hx' =>
      rw [hx] at hx'
      obtain ⟨report, hown', hsuccess, htext⟩ := hx'.gave
      have hmem : ∀ note ∈ own, note ∈ notes := fun note hnote =>
        mem_of_about hown (List.mem_cons_of_mem _ (List.mem_cons_of_mem _ hnote))
      rw [hown'] at hmem
      exact ⟨closed.source, text, ⟨hmem _ (by simp), report, hmem _ (by simp), hsuccess, htext⟩, rfl⟩

/-- In the authoritative process something counts as compiled as soon as a member was given the text
that the compiler gave for its batch. -/
theorem Run.given_of_hasCompiled (h : Run setup acts)
    (hauthoritative : setup.config.environment.authoritative = true)
    (hcompiled : (setup.after acts).batching.batch.hasCompiled = true) :
    ∃ i source t d, Compiled (setup.notes acts) i source t ∧ Given (setup.after acts) i d t := by
  induction h with
  | start => cases hcompiled
  | @act acts act hrun hpossible ih =>
    rw [after_concat] at hcompiled ⊢
    rw [notes_concat]
    by_cases hold : (setup.after acts).batching.batch.hasCompiled = true
    · obtain ⟨i, source, t, d, hcompiled, hgiven⟩ := ih hold
      exact ⟨i, source, t, d, hcompiled.append _, hgiven.apply act⟩
    · cases act with
      | submit | elsewhere => exact absurd hcompiled hold
      | step task =>
        rw [Act.read]
        rcases leaving_or_apart (setup.after acts) task with ⟨i, d, rfl, hleaving⟩ | hapart
        · obtain ⟨hstep, hnote, -⟩ := step_of_leaving hleaving
          obtain ⟨e, rest, hown, hfate⟩ := hrun.fate_of_leaving hleaving
          obtain ⟨⟨job, hi, -⟩, hd⟩ := hleaving
          have hgoes := d.goes_step (setup.after acts).batching
            (setup.after acts).resolution.world hd
          rw [Act.apply, hstep] at hcompiled ⊢
          obtain ⟨source, text, hnoted, htext⟩ := compiled_of_goes hgoes
            (hrun.equipped.environment ▸ hauthoritative) hown hfate hold hcompiled
          exact ⟨i, source, text, _, hnoted.append _, given_went hi htext⟩
        · exact absurd (hapart.books.hasCompiled.symm.trans hcompiled) hold

/-- Who was given something has answered, or is on its way out with it. -/
theorem Given.result {d d' : Departure} {text : Text} {job : Job} (h : Given p i d text)
    (hi : p.jobs[i]? = some job) (hphase : job.phase = .leaving d') : d'.result? = some text := by
  obtain ⟨hd, job', hi', hphase'⟩ := h
  rw [hi] at hi'
  cases hi'
  rcases hphase' with hphase' | hphase'
  · rw [hphase] at hphase'
    cases hphase'
    exact Departure.result?_eq_some.mpr hd
  · rw [hphase] at hphase'
    cases hphase'

/-- A step of a member on its way out with which it is given a text sets the flag, if the compiler
gave a text for its batch. -/
theorem hasCompiled_of_goes {notes : List Note} {d : Departure} {b : Batching} {world : World}
    {out : Departure × Batching × World} {e : Nat} {rest : List Note} {stored : List Storing}
    {source t text : Text} (hgoes : Departure.Goes d b world out)
    (hauthoritative : b.environment.authoritative = true)
    (hown : about i notes = .joined i e :: rest)
    (hfate : Departure.Fate b.environment i d.contribution d.phase rest stored)
    (hresult : out.1.result? = some text)
    (hcompiled : Compiled (notes ++ (d.note i b).toList) i source t) :
    out.2.1.batch.hasCompiled = true := by
  have hqueued : d.phase = .queued → out.2.1.batch.hasCompiled = true := by
    intro hphase
    have hnote : d.note i b = some (.left i d.contribution (d.contribution.leave b.batch).1) := by
      rw [Departure.note, hphase]
    rw [hphase] at hfate
    cases hfate
    rw [hnote] at hcompiled
    obtain ⟨hcalled, -⟩ := hcompiled.of_append (by simp) (by simp)
    have hcalled := mem_about.mpr ⟨hcalled, rfl⟩
    rw [Note.subject, hown] at hcalled
    cases List.mem_singleton.mp hcalled
  cases hgoes with
  | left hphase | skipped hphase => exact hqueued hphase
  | closed | invoked => cases hresult
  | compiled => simp [hauthoritative]
  | @failed x hphase hx =>
    have hnote : d.note i b = none := by simp only [Departure.note, hphase, Invocation.note, hx]
    rw [hnote, Option.toList_none, List.append_nil] at hcompiled
    rw [hphase] at hfate
    cases hfate with
    | @compiling closed _ own _ _ _ hx' =>
      rw [hx] at hx'
      cases hx' with
      | failed hown' hnot =>
        obtain ⟨hcalled, report, hanswered, hsuccess, htext⟩ := hcompiled
        have hcalled := mem_about.mpr ⟨hcalled, rfl⟩
        have hanswered := mem_about.mpr ⟨hanswered, rfl⟩
        simp only [Note.subject, hown, hown', List.mem_cons, reduceCtorEq, Note.called.injEq,
          Note.answered.injEq, true_and, false_or, List.not_mem_nil, or_false] at hcalled hanswered
        obtain ⟨-, hanswer⟩ := hanswered
        exact absurd ⟨report, by rw [hown', hanswer], hsuccess, htext⟩ (hnot t)

/-- A member that is given the text of a compile has the flag set. -/
theorem Run.hasCompiled_of_given (h : Run setup acts)
    (hauthoritative : setup.config.environment.authoritative = true) {source t text : Text}
    {d : Departure} (hcompiled : Compiled (setup.notes acts) i source t)
    (hgiven : Given (setup.after acts) i d text) :
    (setup.after acts).batching.batch.hasCompiled = true := by
  induction h generalizing d text with
  | start =>
    obtain ⟨-, job, hi, -⟩ := hgiven
    cases hi
  | @act acts act hrun hpossible ih =>
    rw [after_concat] at hgiven ⊢
    rw [notes_concat] at hcompiled
    have hold : ∀ {d text}, Compiled (setup.notes acts) i source t →
        Given (setup.after acts) i d text →
        (act.apply (setup.after acts)).batching.batch.hasCompiled = true :=
      fun hcompiled hgiven => hasCompiled_apply (ih hcompiled hgiven) act
    cases act with
    | submit mode load delay =>
      simp only [Act.read, List.append_nil] at hcompiled
      obtain ⟨hd, job, hi, hphase⟩ := hgiven
      simp only [Act.apply, Pipeline.submit, List.getElem?_append] at hi
      split at hi
      · exact hold hcompiled ⟨hd, job, hi, hphase⟩
      · rw [List.mem_singleton.mp (List.mem_of_getElem? hi)] at hphase
        rcases hphase with hphase | hphase <;> cases hphase
    | elsewhere disk kind =>
      simp only [Act.read, List.append_nil] at hcompiled
      exact hold hcompiled hgiven
    | step task =>
      simp only [Act.read] at hcompiled
      rcases leaving_or_apart (setup.after acts) task with ⟨k, d', rfl, hleaving⟩ | hapart
      · obtain ⟨hstep, hnote, -⟩ := step_of_leaving hleaving
        rw [hnote] at hcompiled
        by_cases hki : k = i
        · subst hki
          obtain ⟨e, rest, hown, hfate⟩ := hrun.fate_of_leaving hleaving
          obtain ⟨⟨job, hi, -⟩, hd⟩ := hleaving
          have hgoes := d'.goes_step (setup.after acts).batching
            (setup.after acts).resolution.world hd
          rw [Act.apply, hstep] at hgiven ⊢
          exact hasCompiled_of_goes hgoes (hrun.equipped.environment ▸ hauthoritative) hown hfate
            (hgiven.result (getElem?_went hi _) rfl) hcompiled
        · have hother : ∀ x, x.subject = i →
              x ∉ (d'.note k (setup.after acts).batching).toList := by
            intro x hx hmem
            exact hki ((d'.subject_note (Option.mem_toList.mp hmem)).symm.trans hx)
          exact hold (hcompiled.of_append (fun _ => hother _ rfl) fun _ _ => hother _ rfl)
            (hgiven.of_step (by simpa using hki))
      · have hadmission : ∀ x, x.isAdmission = false →
            x ∉ (note (setup.after acts) task).toList := by
          intro x hx hmem
          rw [hapart.note x (Option.mem_toList.mp hmem)] at hx
          cases hx
        have hnoted := hcompiled.of_append (fun _ => hadmission _ rfl)
          fun _ _ => hadmission _ rfl
        obtain ⟨d', text', hgiven'⟩ := hgiven.of_apart hapart hrun.reached.chronicle hnoted.1
        exact hold hnoted hgiven'

end Pipeline

end StyleBatch
