import StyleBatch.Proofs.Pipeline.Ledger
import StyleBatch.Proofs.Pipeline.Run

/-!
# The course of a load

What has been noted about a load says how far it has come, and nothing else has been noted:
`Course` reads the notes off the phase of its job.  With the ledger of the batch this is the
invariant of a run.

* `Invocation.Course.step`: a compile is noted as it goes on.
* `Chronicle.move`: every move keeps the notes right.
* `Reached.chronicle`: so they are right in every state that comes about.
-/

namespace StyleBatch

open Notes

/-- The source was compiled, and the compiler gave the text. -/
def Gave (i : Nat) (source text : Text) (own : List Note) : Prop :=
  ∃ report, own = [.called i source, .answered i source (.ok report)] ∧
    report.isFailure = false ∧ report.text = text

/-- The notes about a compile. -/
def Invocation.Course (i : Nat) (own : List Note) (x : Invocation) : Prop :=
  match x.phase with
  | .queued => own = []
  | .compiling _ => own = [.called i x.source]
  | .makingDirectory _ text _ => Gave i x.source text own
  | .opening text => Gave i x.source text own
  | .filling text _ => Gave i x.source text own
  | .writing _ text _ => Gave i x.source text own
  | .settled (some text) => Gave i x.source text own
  | .settled none => ∃ answer, own = [.called i x.source, .answered i x.source answer]

/-- The notes about a load since it has joined. -/
def Departure.Course (i : Nat) (own : List Note) (d : Departure) : Prop :=
  match d.phase with
  | .queued => own = []
  | .compiling x => ∃ closed rest, own = .left i d.contribution (some closed) :: rest ∧
      x.source = closed.source ∧ x.Course i rest
  | .settled text => ∃ closed rest, own = .left i d.contribution closed :: rest ∧
      (text ≠ [] → ∃ batch, closed = some batch ∧ Gave i batch.source text rest)

/-- The notes about a load. -/
def Pipeline.Job.Course (i : Nat) (own : List Note) (job : Pipeline.Job) : Prop :=
  match job.phase with
  | .delayed _ => own = []
  | .resolving _ =>
    match job.mode with
    | .inline => own = []
    | .translate => ∃ e, own = [.joined i e]
  | .settling .. => ∃ e, own = [.joined i e]
  | .leaving d => ∃ e rest, own = .joined i e :: rest ∧ d.Course i rest
  | .settled o => own = [] ∨ own = [.deferred i] ∨
      ∃ e d text rest, d.phase = .settled text ∧ own = .joined i e :: rest ∧ d.Course i rest ∧
        o = Pipeline.answerOf d text

theorem Invocation.Course.step {i : Nat} {own : List Note} {x : Invocation} (h : x.Course i own)
    (hx : x.result? = none) (w : Workshop) (world : World) :
    (x.step w world).1.source = x.source ∧
      (x.step w world).1.Course i (own ++ (x.note i w).toList) := by
  obtain ⟨source, address, phase⟩ := x
  -- nothing is noted between the compiler's answer and the end
  have hstays : ∀ text, Gave i source text own →
      Gave i source text (own ++ (none : Option Note).toList) := by
    intro text hgave
    rwa [Option.toList_none, List.append_nil]
  cases phase with
  | queued =>
    cases h
    exact ⟨rfl, rfl⟩
  | compiling call =>
    cases h
    obtain ⟨csource, pauses, reply⟩ := call
    cases pauses with
    | succ pauses => exact ⟨rfl, rfl⟩
    | zero =>
      have hanswered : ∀ text, (∃ report, w.compiler.answer ⟨csource, 0, reply⟩ = .ok report ∧
          report.isFailure = false ∧ report.text = text) →
          Gave i source text ([.called i source] ++
            (some (Note.answered i source (w.compiler.answer ⟨csource, 0, reply⟩))).toList) := by
        rintro text ⟨report, hok, hreport⟩
        exact ⟨report, by rw [hok]; rfl, hreport⟩
      simp only [Invocation.step, Invocation.note]
      cases hanswer : w.compiler.answer ⟨csource, 0, reply⟩ with
      | error fault => exact ⟨rfl, _, rfl⟩
      | ok report =>
        by_cases hfailure : report.isFailure
        · simp only [hfailure, if_true]
          exact ⟨trivial, _, rfl⟩
        · have hgave := hanswered report.text ⟨report, hanswer, by simpa using hfailure, rfl⟩
          rw [hanswer] at hgave
          simp only [hfailure, if_false, Bool.false_eq_true]
          split
          · rw [Invocation.beginPersisting]
            split
            · exact ⟨rfl, hgave⟩
            · exact ⟨rfl, hgave⟩
            · exact ⟨rfl, hgave⟩
          · exact ⟨rfl, hgave⟩
  | makingDirectory pauses text made =>
    cases pauses with
    | succ pauses => exact ⟨rfl, hstays text h⟩
    | zero => cases made <;> exact ⟨rfl, hstays text h⟩
  | opening text =>
    simp only [Invocation.step, Invocation.openArtifact]
    split <;> exact ⟨rfl, hstays text h⟩
  | filling text file => exact ⟨rfl, hstays text h⟩
  | writing pauses text written =>
    cases pauses with
    | succ pauses => exact ⟨rfl, hstays text h⟩
    | zero => cases written <;> exact ⟨rfl, hstays text h⟩
  | settled text => cases hx

namespace Notes

variable {notes : List Note} {i : Nat}

theorem mem_about {note : Note} : note ∈ about i notes ↔ note ∈ notes ∧ note.subject = i := by
  simp [about]

theorem mem_of_about {own : List Note} (h : about i notes = own) {note : Note} (hnote : note ∈ own) :
    note ∈ notes :=
  (mem_about.mp (h ▸ hnote)).1

theorem about_append (more : List Note) : about i (notes ++ more) = about i notes ++ about i more :=
  List.filter_append ..

/-- A note is about one job at most. -/
theorem about_concat {note : Option Note} (hsubject : ∀ x, note = some x → x.subject = i) (j : Nat) :
    about j (notes ++ note.toList) =
      if j = i then about i notes ++ note.toList else about j notes := by
  rw [about_append]
  cases note with
  | none => split <;> simp [about, *]
  | some x =>
    have hx := hsubject x rfl
    by_cases hij : j = i
    · subst hij
      simp [about, hx]
    · simp [about, hx, hij, Ne.symm hij]

/-- Whoever is not said to have joined has not. -/
theorem not_mem_joiners (h : ∀ e, .joined i e ∉ about i notes) : i ∉ joiners notes := by
  intro hi
  obtain ⟨e, he⟩ := mem_joiners.mp hi
  exact h e (mem_about.mpr ⟨he, rfl⟩)

theorem not_mem_leavers (h : ∀ c closed, .left i c closed ∉ about i notes) : i ∉ leavers notes := by
  intro hi
  obtain ⟨c, closed, hleft⟩ := mem_leavers.mp hi
  exact h c closed (mem_about.mpr ⟨hleft, rfl⟩)

end Notes

namespace Pipeline

/-- When a job comes into another phase, the other jobs are what they were. -/
theorem getElem?_modify_cases {jobs : List Job} {i j : Nat} {old job : Job} {phase : JobPhase}
    (hi : jobs[i]? = some old)
    (hj : (jobs.modify i fun job => { job with phase })[j]? = some job) :
    j = i ∧ job = { old with phase } ∨ j ≠ i ∧ jobs[j]? = some job := by
  rw [List.getElem?_modify] at hj
  by_cases hij : i = j
  · subst hij
    simp only [hi, if_true, Option.map_eq_map, Option.map_some, Option.some.injEq] at hj
    exact Or.inl ⟨rfl, hj.symm⟩
  · exact Or.inr ⟨Ne.symm hij, by simpa [hij] using hj⟩

/-- The notes are right about the batch and about every load. -/
structure Chronicle (notes : List Note) (p : Pipeline) : Prop where
  ledger : Ledger notes p.batching.batch
  job : ∀ (i : Nat) (job : Job), p.jobs[i]? = some job → job.Course i (about i notes)
  absent : ∀ i, p.jobs.length ≤ i → about i notes = []

namespace Chronicle

variable {notes : List Note} {p p' : Pipeline} {i : Nat} {job : Job}

/-- A job comes into another phase, with a note about it or without one. -/
theorem setJob (h : Chronicle notes p) (hi : p.jobs[i]? = some job) {phase : JobPhase}
    {note : Option Note} (hjobs : p'.jobs = p.jobs.modify i fun job => { job with phase })
    (hledger : Ledger (notes ++ note.toList) p'.batching.batch)
    (hsubject : ∀ x, note = some x → x.subject = i)
    (hcourse : ({ job with phase } : Job).Course i (about i notes ++ note.toList)) :
    Chronicle (notes ++ note.toList) p' := by
  refine ⟨hledger, fun i' job' hi' => ?_, fun i' hi' => ?_⟩
  · rw [about_concat hsubject]
    rcases getElem?_modify_cases hi (hjobs ▸ hi') with ⟨rfl, rfl⟩ | ⟨hii', hi'⟩
    · rw [if_pos rfl]
      exact hcourse
    · rw [if_neg hii']
      exact h.job i' job' hi'
  · rw [hjobs, List.length_modify] at hi'
    have hlt := (List.getElem?_eq_some_iff.mp hi).1
    rw [about_concat hsubject, if_neg (by omega)]
    exact h.absent i' hi'

/-- A job comes into another phase without a note. -/
theorem setJob_of_none (h : Chronicle notes p) (hi : p.jobs[i]? = some job) {phase : JobPhase}
    (hjobs : p'.jobs = p.jobs.modify i fun job => { job with phase })
    (hcounts : SameCounts p.batching.batch p'.batching.batch)
    (hcourse : ({ job with phase } : Job).Course i (about i notes)) :
    Chronicle (notes ++ (none : Option Note).toList) p' := by
  refine h.setJob hi hjobs ?_ nofun ?_
  · rw [Option.toList_none, List.append_nil]
    exact h.ledger.congr hcounts.epoch hcounts.outstanding hcounts.members hcounts.buffer
  · rw [Option.toList_none, List.append_nil]
    exact hcourse

/-- Who is about to leave has joined and not left. -/
theorem inside (h : Chronicle notes p) {d : Departure} (hi : p.jobs[i]? = some job)
    (hphase : job.phase = .leaving d) (hd : d.phase = .queued) :
    ∃ e, about i notes = [.joined i e] ∧ i ∈ joiners notes ∧ i ∉ leavers notes := by
  have hcourse := h.job i job hi
  simp only [Job.Course, hphase, Departure.Course, hd] at hcourse
  obtain ⟨e, rest, hown, rfl⟩ := hcourse
  refine ⟨e, hown, mem_joiners.mpr ⟨e, mem_of_about hown (List.mem_singleton_self _)⟩, ?_⟩
  refine not_mem_leavers fun c closed hleft => ?_
  rw [hown] at hleft
  cases List.mem_singleton.mp hleft

/-- Every move keeps the notes right. -/
theorem move (h : Chronicle notes p) {task : Task} {note : Option Note}
    (hmove : Move p task note p') : Chronicle (notes ++ note.toList) p' := by
  cases hmove with
  | resolution _ =>
    rw [Option.toList_none, List.append_nil]
    exact ⟨h.ledger, h.job, h.absent⟩
  | @waited i job phase hi hwaits =>
    have hcourse := h.job i job hi
    refine h.setJob_of_none hi rfl (.refl _) ?_
    rw [Job.Course] at hcourse ⊢
    generalize job.phase = old at hwaits hcourse
    cases hwaits <;> exact hcourse
  | @deferred i job batch world hi hphase hmode hcounts =>
    have hcourse := h.job i job hi
    rw [Job.Course, hphase] at hcourse
    have hledger : Ledger (notes ++ [.deferred i]) p.batching.batch := h.ledger.idle trivial
    refine h.setJob hi rfl (hledger.congr hcounts.epoch hcounts.outstanding hcounts.members
      hcounts.buffer) (by rintro _ ⟨⟩; rfl) ?_
    exact Or.inr (Or.inl (by rw [hcourse]; rfl))
  | @joined i job world hi hphase hmode =>
    have hcourse := h.job i job hi
    rw [Job.Course, hphase] at hcourse
    have hnot : i ∉ joiners notes := not_mem_joiners fun e he => by rw [hcourse] at he; cases he
    refine h.setJob hi rfl (h.ledger.join hnot) (by rintro _ ⟨⟩; rfl) ?_
    simp only [Job.Course, hmode, hcourse]
    exact ⟨_, rfl⟩
  | @begun i job hi hphase hmode =>
    have hcourse := h.job i job hi
    rw [Job.Course, hphase] at hcourse
    refine h.setJob_of_none hi rfl (.refl _) ?_
    simp only [Job.Course, hmode]
    exact hcourse
  | @inlined i k job o hi hphase hmode =>
    have hcourse := h.job i job hi
    simp only [Job.Course, hphase, hmode] at hcourse
    exact h.setJob_of_none hi rfl (.refl _) (Or.inl hcourse)
  | @resolved i k job source pauses hi hphase hmode =>
    have hcourse := h.job i job hi
    simp only [Job.Course, hphase, hmode] at hcourse
    exact h.setJob_of_none hi rfl (.refl _) hcourse
  | @failed i k job fault hi hphase hmode =>
    have hcourse := h.job i job hi
    simp only [Job.Course, hphase, hmode] at hcourse
    obtain ⟨e, he⟩ := hcourse
    exact h.setJob_of_none hi rfl (.refl _) ⟨e, [], he, rfl⟩
  | @finished i job source hi hphase =>
    have hcourse := h.job i job hi
    simp only [Job.Course, hphase] at hcourse
    obtain ⟨e, he⟩ := hcourse
    exact h.setJob_of_none hi rfl (.refl _) ⟨e, [], he, rfl⟩
  | @left i job d phase batch world hi hphase hd hcounts hcases =>
    obtain ⟨e, hown, hjoined, hnot⟩ := h.inside hi hphase hd
    have hledger := h.ledger.leave hjoined hnot d.contribution
    refine h.setJob hi rfl (hledger.congr hcounts.epoch hcounts.outstanding hcounts.members
      hcounts.buffer) (by rintro _ ⟨⟩; rfl) ?_
    refine ⟨e, [.left i d.contribution (d.contribution.leave p.batching.batch).1],
      by rw [hown]; rfl, ?_⟩
    rcases hcases with rfl | ⟨closed, hclosed, rfl⟩
    · exact ⟨_, [], rfl, fun hne => absurd rfl hne⟩
    · exact ⟨closed, [], by rw [hclosed], rfl, rfl⟩
  | @compiling i job d x hi hphase hd hx =>
    have hcourse := h.job i job hi
    simp only [Job.Course, hphase, Departure.Course, hd] at hcourse
    obtain ⟨e, rest, hown, closed, rest', rfl, hsource, hx'⟩ := hcourse
    obtain ⟨hsource', hstep⟩ := hx'.step hx p.batching.workshop p.resolution.world
    refine h.setJob hi rfl ?_ (fun _ hnote => (Invocation.note_idle hnote).2) ?_
    · cases hnote : x.note i p.batching.workshop with
      | none =>
        rw [Option.toList_none, List.append_nil]
        exact h.ledger
      | some note => exact h.ledger.idle (Invocation.note_idle hnote).1
    · refine ⟨e, .left i d.contribution (some closed) ::
        (rest' ++ (x.note i p.batching.workshop).toList), by rw [hown]; rfl, ?_⟩
      exact ⟨closed, _, rfl, hsource'.trans hsource, hstep⟩
  | @compiled i job d x text batch hi hphase hd hx hcounts =>
    have hcourse := h.job i job hi
    simp only [Job.Course, hphase, Departure.Course, hd] at hcourse
    obtain ⟨e, rest, hown, closed, rest', rfl, hsource, hx'⟩ := hcourse
    refine h.setJob_of_none hi rfl hcounts ⟨e, _, hown, ?_⟩
    refine ⟨some closed, rest', rfl, fun hne => ⟨closed, rfl, ?_⟩⟩
    cases text with
    | none => exact absurd rfl hne
    | some text =>
      rw [Invocation.Course, hx, hsource] at hx'
      exact hx'
  | @answered i job d text hi hphase hd =>
    have hcourse := h.job i job hi
    simp only [Job.Course, hphase] at hcourse
    obtain ⟨e, rest, hown, hcourse⟩ := hcourse
    exact h.setJob_of_none hi rfl (.refl _)
      (Or.inr (Or.inr ⟨e, d, text, rest, hd, hown, hcourse, rfl⟩))

theorem submit (h : Chronicle notes p) (mode : Mode) (load : Load) (delay : Nat) :
    Chronicle notes (submit mode load delay p) where
  ledger := h.ledger
  job i job hi := by
    simp only [Pipeline.submit, List.getElem?_append] at hi
    split at hi
    · exact h.job i job hi
    · rename_i hlt
      rw [List.mem_singleton.mp (List.mem_of_getElem? hi), Job.Course]
      exact h.absent i (by omega)
  absent i hi := by
    rw [Pipeline.submit, List.length_append] at hi
    exact h.absent i (by omega)

end Chronicle

/-- The notes of a run are right. -/
theorem Reached.chronicle {setup : Setup} {allowed : Disk → Prop} {loads : List Load}
    {notes : List Note} {p : Pipeline} (h : Reached setup allowed loads notes p) :
    Chronicle notes p := by
  induction h with
  | start => exact ⟨.start, fun _ _ hi => (nomatch hi), fun _ _ => rfl⟩
  | submit mode load delay _ ih => exact ih.submit mode load delay
  | poll _ hcan _ ih => exact ih.move (move_of_canStep hcan)
  | elsewhere disk kind _ _ ih => exact ⟨ih.ledger, ih.job, ih.absent⟩

end Pipeline

end StyleBatch
