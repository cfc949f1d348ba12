import StyleBatch.Proofs.Pipeline.Closings

/-!
# What becomes of a load

The phase of a job says which notes there are about its load since it has joined, and what has
become of the artifact through it.  So the end of a load is known from what it was noted to do: what
it answers, whether its batch was compiled, and where the compiled text went.

* `Invocation.Fate`, `Departure.Fate`, `Pipeline.Job.Fate`: phases with the notes and storings that
  belong to them.
* `Departure.Fate.gave_of_written`: what was written is what the compiler gave.
* `Invocation.Fate.does`, `Departure.Fate.goes`: a step keeps them together.
* `Pipeline.Run.fates`: so they are together after every run.
* `Pipeline.Run.fate_of_outcome`: and a load that has answered has its fate.
-/

namespace StyleBatch

open Notes Pipeline

/-- A compile of the source for the load numbered `i`: its phase, its notes, and what has become of
the artifact. -/
inductive Invocation.Fate (i : Nat) (persists : Bool) (source : Text) :
    InvocationPhase → List Note → List Storing → Prop
  | queued : Fate i persists source .queued [] []
  | compiling (call : Call) : Fate i persists source (.compiling call) [.called i source] []
  | failed {own : List Note} {answer : Except Fault Report} :
      own = [.called i source, .answered i source answer] → (∀ text, ¬Gave i source text own) →
      Fate i persists source (.settled none) own []
  | making {own : List Note} {text : Text} (pauses : Nat) (made : Except DiskFault Unit) :
      persists = true → Gave i source text own →
      Fate i persists source (.makingDirectory pauses text made) own []
  | opening {own : List Note} {text : Text} : persists = true → Gave i source text own →
      Fate i persists source (.opening text) own []
  | filling {own : List Note} {text : Text} (file : List Text) :
      persists = true → Gave i source text own → Fate i persists source (.filling text file) own []
  | writing {own : List Note} {text : Text} (pauses : Nat) :
      persists = true → Gave i source text own →
      Fate i persists source (.writing pauses text (.ok ())) own [.written i text]
  | missing {own : List Note} {text : Text} (pauses : Nat) (fault : DiskFault) :
      persists = true → Gave i source text own →
      Fate i persists source (.writing pauses text (.error fault)) own []
  | kept {own : List Note} {text : Text} : persists = false → Gave i source text own →
      Fate i persists source (.settled (some text)) own []
  | stored {own : List Note} {text : Text} : persists = true → Gave i source text own →
      Fate i persists source (.settled (some text)) own [.written i text]
  | refused {own : List Note} {text : Text} : persists = true → Gave i source text own →
      Fate i persists source (.settled (some text)) own [.refused i text]

/-- A member that brings the contribution: how far it is on its way out, its notes since it has
joined, and what has become of the artifact. -/
inductive Departure.Fate (environment : Environment) (i : Nat) (c : Contribution) :
    DeparturePhase → List Note → List Storing → Prop
  | queued : Fate environment i c .queued [] []
  | left {closed : Option ClosedBatch} : closed.filter c.closes = none →
      Fate environment i c (.settled []) [.left i c closed] []
  | skipped {closed : ClosedBatch} : c.closes closed = true → environment.authoritative = false →
      Fate environment i c (.settled []) [.left i c (some closed)] []
  | compiling {closed : ClosedBatch} {x : Invocation} {own : List Note} {stored : List Storing} :
      c.closes closed = true → x.source = closed.source →
      Invocation.Fate i environment.persists closed.source x.phase own stored →
      Fate environment i c (.compiling x) (.left i c (some closed) :: own) stored
  | compiled {closed : ClosedBatch} {result : Option Text} {own : List Note}
      {stored : List Storing} : c.closes closed = true →
      Invocation.Fate i environment.persists closed.source (.settled result) own stored →
      Fate environment i c (.settled (result.getD [])) (.left i c (some closed) :: own) stored

/-- The notes about a load, and what has become of the artifact through it. -/
def Pipeline.Job.Fate (environment : Environment) (i : Nat) (own : List Note)
    (stored : List Storing) (job : Job) : Prop :=
  match job.phase with
  | .leaving d => ∃ e rest, own = .joined i e :: rest ∧
      Departure.Fate environment i d.contribution d.phase rest stored
  | .settled o => (stored = [] ∧ (own = [] ∨ own = [.deferred i] ∧ o = .ok [])) ∨
      ∃ e d text rest, own = .joined i e :: rest ∧ o = answerOf d text ∧
        Departure.Fate environment i d.contribution (.settled text) rest stored
  | _ => stored = []

/-- A compile that has ended has its call and the answer among its notes. -/
theorem Invocation.Fate.answered {i : Nat} {persists : Bool} {source : Text}
    {result : Option Text} {own : List Note} {stored : List Storing}
    (h : Invocation.Fate i persists source (.settled result) own stored) :
    ∃ answer, own = [.called i source, .answered i source answer] := by
  cases h with
  | failed hown => exact ⟨_, hown⟩
  | kept _ hgave | stored _ hgave | refused _ hgave =>
    obtain ⟨report, hown, -⟩ := hgave
    exact ⟨_, hown⟩

/-- The text that a compile ends with is the compiler's. -/
theorem Invocation.Fate.gave {i : Nat} {persists : Bool} {source text : Text} {own : List Note}
    {stored : List Storing}
    (h : Invocation.Fate i persists source (.settled (some text)) own stored) :
    Gave i source text own := by
  cases h with
  | kept _ hgave | stored _ hgave | refused _ hgave => exact hgave

/-- So is the text that was written. -/
theorem Invocation.Fate.gave_of_written {i : Nat} {persists : Bool} {source text : Text}
    {phase : InvocationPhase} {own : List Note} {stored : List Storing}
    (h : Invocation.Fate i persists source phase own stored) (hwritten : .written i text ∈ stored) :
    Gave i source text own := by
  cases h with
  | writing _ _ hgave | stored _ hgave =>
    cases List.mem_singleton.mp hwritten
    exact hgave
  | refused => cases List.mem_singleton.mp hwritten
  | _ => cases hwritten

/-- Whoever has written has closed a batch, the source of which was compiled to that text. -/
theorem Departure.Fate.gave_of_written {environment : Environment} {i : Nat} {c : Contribution}
    {phase : DeparturePhase} {own : List Note} {stored : List Storing} {text : Text}
    (h : Departure.Fate environment i c phase own stored) (hwritten : .written i text ∈ stored) :
    ∃ closed rest, c.closes closed = true ∧ own = .left i c (some closed) :: rest ∧
      Gave i closed.source text rest := by
  cases h with
  | compiling hcloses _ hx => exact ⟨_, _, hcloses, rfl, hx.gave_of_written hwritten⟩
  | compiled hcloses hx => exact ⟨_, _, hcloses, rfl, hx.gave_of_written hwritten⟩
  | _ => cases hwritten

/-- Something has become of the artifact only through a load that has joined a batch. -/
theorem Pipeline.Job.Fate.of_stored {environment : Environment} {i : Nat} {own : List Note}
    {stored : List Storing} {job : Job} {s : Storing} (h : job.Fate environment i own stored)
    (hs : s ∈ stored) : ∃ c phase e rest, own = .joined i e :: rest ∧
      Departure.Fate environment i c phase rest stored := by
  rw [Job.Fate] at h
  split at h
  · obtain ⟨e, rest, hown, hfate⟩ := h
    exact ⟨_, _, e, rest, hown, hfate⟩
  · rcases h with ⟨hnone, -⟩ | ⟨e, d, text, rest, hown, -, hfate⟩
    · rw [hnone] at hs
      cases hs
    · exact ⟨_, _, e, rest, hown, hfate⟩
  · rw [h] at hs
    cases hs

/-! ## One step on -/

section

variable {i : Nat} {own : List Note} {stored : List Storing}

theorem Invocation.gave_answered {w : Workshop} {call : Call} {source text : Text}
    (h : Answers w call text) :
    Gave i source text [.called i source, .answered i source (w.compiler.answer call)] := by
  obtain ⟨report, hok, hsuccess, htext⟩ := h
  exact ⟨report, by rw [hok], hsuccess, htext⟩

theorem Invocation.answers_of_gave {w : Workshop} {call : Call} {source text : Text}
    (h : Gave i source text [.called i source, .answered i source (w.compiler.answer call)]) :
    Answers w call text := by
  obtain ⟨report, hown, hsuccess, htext⟩ := h
  simp only [List.cons.injEq, Note.answered.injEq, true_and, and_true] at hown
  exact ⟨report, hown, hsuccess, htext⟩

/-- A pause changes nothing that was noted. -/
theorem Invocation.Fate.waits {persists : Bool} {source : Text} {phase phase' : InvocationPhase}
    (h : Fate i persists source phase own stored) (hwaits : Waits phase phase') :
    Fate i persists source phase' own stored := by
  cases hwaits with
  | compiling =>
    cases h
    exact .compiling _
  | makingDirectory =>
    cases h with
    | making _ _ hpersists hgave => exact .making _ _ hpersists hgave
  | writing =>
    cases h with
    | writing _ hpersists hgave => exact .writing _ hpersists hgave
    | missing _ _ hpersists hgave => exact .missing _ _ hpersists hgave

/-- A step of a compile, with its note. -/
theorem Invocation.Fate.does {w w' : Workshop} {world world' : World} {x x' : Invocation}
    {note : Option Note} {storing : Option Storing}
    (h : Fate i w.environment.persists x.source x.phase own stored)
    (hdoes : Does i w world x note storing (x', w', world')) :
    Fate i w.environment.persists x.source x'.phase (own ++ note.toList)
      (stored ++ storing.toList) := by
  cases hdoes with
  | waited hwaits =>
    rw [Option.toList_none, Option.toList_none, List.append_nil, List.append_nil]
    exact h.waits hwaits
  | called hphase =>
    rw [hphase] at h
    cases h
    exact .compiling _
  | failed hphase _ hnot =>
    rw [hphase] at h
    cases h
    exact .failed rfl fun text hgave => hnot text (answers_of_gave hgave)
  | beganMaking hphase _ hanswers hpersists =>
    rw [hphase] at h
    cases h
    exact .making 1 _ hpersists (gave_answered hanswers)
  | beganWriting hphase _ hanswers hpersists =>
    rw [hphase] at h
    cases h
    exact .opening hpersists (gave_answered hanswers)
  | kept hphase _ hanswers hpersists =>
    rw [hphase] at h
    cases h
    exact .kept hpersists (gave_answered hanswers)
  | made hphase =>
    rw [hphase] at h
    cases h with
    | making _ _ hpersists hgave => simpa using Fate.opening hpersists hgave
  | opened hphase =>
    rw [hphase] at h
    cases h with
    | opening hpersists hgave => simpa using Fate.filling _ hpersists hgave
  | unopened hphase =>
    rw [hphase] at h
    cases h with
    | opening hpersists hgave => simpa using Fate.missing 1 _ hpersists hgave
  | filled hphase =>
    rw [hphase] at h
    cases h with
    | filling _ hpersists hgave => simpa using Fate.writing 0 hpersists hgave
  | stored hphase =>
    rw [hphase] at h
    cases h with
    | writing _ hpersists hgave => simpa using Fate.stored hpersists hgave
  | refused hphase =>
    rw [Option.toList_none, List.append_nil]
    rcases hphase with hphase | hphase
    · rw [hphase] at h
      cases h with
      | making _ _ hpersists hgave => exact .refused hpersists hgave
    · rw [hphase] at h
      cases h with
      | missing _ _ hpersists hgave => exact .refused hpersists hgave

/-- A step of a member on its way out, with its note. -/
theorem Departure.Fate.goes {d : Departure} {b : Batching} {world : World}
    {out : Departure × Batching × World} (hworkshop : b.workshop.environment = b.environment)
    (h : Departure.Fate b.environment i d.contribution d.phase own stored)
    (hgoes : d.Goes b world out) :
    Departure.Fate b.environment i d.contribution out.1.phase (own ++ (d.note i b).toList)
      (stored ++ (d.storing i b world).toList) := by
  have hqueued : d.phase = .queued → own = [] ∧ stored = [] ∧
      d.note i b = some (.left i d.contribution (d.contribution.leave b.batch).1) ∧
      d.storing i b world = none := by
    intro hphase
    rw [hphase] at h
    cases h
    exact ⟨rfl, rfl, by rw [note, hphase], by rw [storing, hphase]⟩
  cases hgoes with
  | left hphase hclosing =>
    obtain ⟨rfl, rfl, hnote, hstoring⟩ := hqueued hphase
    rw [hnote, hstoring]
    exact .left hclosing
  | closed hphase hclosing =>
    obtain ⟨rfl, rfl, hnote, hstoring⟩ := hqueued hphase
    obtain ⟨hclosed, hcloses⟩ := Option.filter_eq_some_iff.mp hclosing
    rw [hnote, hstoring, hclosed]
    exact .compiling hcloses rfl .queued
  | skipped hphase hclosing _ _ _ hauthoritative =>
    obtain ⟨rfl, rfl, hnote, hstoring⟩ := hqueued hphase
    obtain ⟨hclosed, hcloses⟩ := Option.filter_eq_some_iff.mp hclosing
    rw [hnote, hstoring, hclosed]
    exact .skipped hcloses hauthoritative
  | @invoked x hphase hx =>
    rw [hphase] at h
    cases h with
    | compiling hcloses hsource hfate =>
      have hdoes := x.does_step i b.workshop world hx
      rw [note, hphase, storing, hphase, List.cons_append]
      dsimp only
      generalize x.note i b.workshop = note, x.storing i b.workshop world = storing,
        x.step b.workshop world = out at hdoes ⊢
      obtain ⟨x', w', world'⟩ := out
      rw [← hworkshop, ← hsource] at hfate
      have hnext := hfate.does hdoes
      rw [hsource, hworkshop] at hnext
      exact .compiling hcloses (hdoes.source.trans hsource) hnext
  | @failed x hphase hx =>
    rw [hphase] at h
    cases h with
    | compiling hcloses hsource hfate =>
      rw [hx] at hfate
      simp only [note, hphase, Invocation.note, hx, storing, Invocation.storing, Invocation.step,
        Invocation.stored?, Option.toList_none, List.append_nil]
      exact .compiled hcloses hfate
  | @compiled x text hphase hx =>
    rw [hphase] at h
    cases h with
    | compiling hcloses hsource hfate =>
      rw [hx] at hfate
      simp only [note, hphase, Invocation.note, hx, storing, Invocation.storing, Invocation.step,
        Invocation.stored?, Option.toList_none, List.append_nil]
      exact .compiled hcloses hfate

end

/-- What becomes of the artifact through one load. -/
def Storing.about (i : Nat) (storings : List Storing) : List Storing :=
  storings.filter fun storing => decide (storing.subject = i)

theorem Storing.mem_about {i : Nat} {storings : List Storing} {storing : Storing} :
    storing ∈ Storing.about i storings ↔ storing ∈ storings ∧ storing.subject = i := by
  simp [Storing.about]

theorem Invocation.Does.subject {i : Nat} {w : Workshop} {world : World} {x : Invocation}
    {note : Option Note} {storing : Option Storing} {out : Invocation × Workshop × World}
    (h : Does i w world x note storing out) {s : Storing} (hs : storing = some s) :
    s.subject = i := by
  cases h <;> cases hs <;> rfl

theorem Departure.subject_note {i : Nat} {b : Batching} {d : Departure} {x : Note}
    (hx : d.note i b = some x) : x.subject = i := by
  rw [note] at hx
  split at hx
  · cases hx
    rfl
  · exact (Invocation.note_idle hx).2
  · cases hx

theorem Departure.subject_storing {i : Nat} {b : Batching} {world : World} {d : Departure}
    {s : Storing} (hs : d.storing i b world = some s) : s.subject = i := by
  rw [storing] at hs
  split at hs
  · rename_i x _
    cases hx : x.result? with
    | none => exact (x.does_step i b.workshop world hx).subject hs
    | some result =>
      rw [Invocation.result?] at hx
      split at hx
      · rename_i hphase
        simp [Invocation.storing, hphase, Invocation.step, Invocation.stored?] at hs
      · cases hx
  · cases hs

namespace Pipeline

/-- The notes and the storings belong to the phases of the jobs. -/
structure Fates (environment : Environment) (notes : List Note) (storings : List Storing)
    (p : Pipeline) : Prop where
  job : ∀ (i : Nat) (job : Job), p.jobs[i]? = some job →
    job.Fate environment i (about i notes) (Storing.about i storings)
  absent : ∀ i, p.jobs.length ≤ i → Storing.about i storings = []

namespace Fates

variable {environment : Environment} {notes : List Note} {storings : List Storing}
  {p p' : Pipeline} {i : Nat} {job : Job}

/-- A job comes into another phase. -/
theorem setJob (h : Fates environment notes storings p) (hi : p.jobs[i]? = some job)
    {phase : JobPhase} {note : Option Note} {storing : Option Storing}
    (hjobs : p'.jobs = p.jobs.modify i fun job => { job with phase })
    (hnote : ∀ x, note = some x → x.subject = i) (hstoring : ∀ s, storing = some s → s.subject = i)
    (hfate : ({ job with phase } : Job).Fate environment i (about i notes ++ note.toList)
      (Storing.about i storings ++ storing.toList)) :
    Fates environment (notes ++ note.toList) (storings ++ storing.toList) p' := by
  have hstorings : ∀ i', Storing.about i' (storings ++ storing.toList) =
      if i' = i then Storing.about i storings ++ storing.toList
      else Storing.about i' storings := by
    intro i'
    rw [Storing.about, List.filter_append, Storing.about, Storing.about]
    cases storing with
    | none => split <;> simp [*]
    | some s =>
      have hs := hstoring s rfl
      by_cases hii' : i' = i
      · subst hii'
        simp [hs]
      · simp [hs, hii', Ne.symm hii']
  refine ⟨fun i' job' hi' => ?_, fun i' hi' => ?_⟩
  · rw [about_concat hnote, hstorings]
    rcases getElem?_modify_cases hi (hjobs ▸ hi') with ⟨rfl, rfl⟩ | ⟨hii', hi'⟩
    · rw [if_pos rfl, if_pos rfl]
      exact hfate
    · rw [if_neg hii', if_neg hii']
      exact h.job i' job' hi'
  · rw [hjobs, List.length_modify] at hi'
    have hlt := (List.getElem?_eq_some_iff.mp hi).1
    rw [hstorings, if_neg (by omega)]
    exact h.absent i' hi'

/-- A job comes into another phase, and the artifact is left alone. -/
theorem setJob_of_none (h : Fates environment notes storings p) (hi : p.jobs[i]? = some job)
    {phase : JobPhase} {note : Option Note}
    (hjobs : p'.jobs = p.jobs.modify i fun job => { job with phase })
    (hnote : ∀ x, note = some x → x.subject = i)
    (hfate : ({ job with phase } : Job).Fate environment i (about i notes ++ note.toList)
      (Storing.about i storings)) : Fates environment (notes ++ note.toList) storings p' := by
  have hquiet : ∀ s : Storing, none = some s → s.subject = i := nofun
  have hset := h.setJob hi hjobs hnote hquiet
    (by rw [Option.toList_none, List.append_nil]; exact hfate)
  rwa [Option.toList_none, List.append_nil] at hset

/-- A step that is apart from all compiles. -/
theorem move (h : Fates environment notes storings p) (hchronicle : Chronicle notes p) {task : Task}
    {note : Option Note} (hmove : Move p task note p') (hapart : Apart p task) :
    Fates environment (notes ++ note.toList) storings p' := by
  -- Who only waits, resolves or settles has nothing to do with the artifact.
  have hidle : ∀ {i : Nat} {job : Job}, p.jobs[i]? = some job →
      (∀ d, job.phase ≠ .leaving d) → (∀ o, job.phase ≠ .settled o) →
      Storing.about i storings = [] := by
    intro i job hi hleaving hsettled
    have hfate := h.job i job hi
    rw [Job.Fate] at hfate
    split at hfate
    · exact absurd ‹_› (hleaving _)
    · exact absurd ‹_› (hsettled _)
    · exact hfate
  cases hmove with
  | resolution =>
    rw [Option.toList_none, List.append_nil]
    exact ⟨h.job, h.absent⟩
  | @waited i job phase hi hwaits =>
    refine h.setJob_of_none hi rfl nofun ?_
    have hstored : Storing.about i storings = [] := by
      refine hidle hi (fun d hd => ?_) fun o ho => ?_
      · rw [hd] at hwaits
        cases hwaits
      · rw [ho] at hwaits
        cases hwaits
    rw [Job.Fate]
    generalize job.phase = old at hwaits
    cases hwaits <;> exact hstored
  | @deferred i job batch world hi hphase hmode hcounts =>
    refine h.setJob_of_none hi rfl (by rintro _ ⟨⟩; rfl) ?_
    have hcourse := hchronicle.job i job hi
    rw [Job.Course, hphase] at hcourse
    refine Or.inl ⟨hidle hi (by simp [hphase]) (by simp [hphase]), Or.inr ⟨?_, rfl⟩⟩
    rw [hcourse]
    rfl
  | @joined i job world hi hphase hmode =>
    refine h.setJob_of_none hi rfl (by rintro _ ⟨⟩; rfl) ?_
    exact hidle hi (by simp [hphase]) (by simp [hphase])
  | @begun i job hi hphase hmode =>
    refine h.setJob_of_none hi rfl nofun ?_
    exact hidle hi (by simp [hphase]) (by simp [hphase])
  | @inlined i k job o hi hphase hmode ho =>
    refine h.setJob_of_none hi rfl nofun ?_
    have hcourse := hchronicle.job i job hi
    simp only [Job.Course, hphase, hmode] at hcourse
    refine Or.inl ⟨hidle hi (by simp [hphase]) (by simp [hphase]), Or.inl ?_⟩
    rw [hcourse]
    rfl
  | @resolved i k job source pauses hi hphase hmode ho =>
    refine h.setJob_of_none hi rfl nofun ?_
    exact hidle hi (by simp [hphase]) (by simp [hphase])
  | @failed i k job fault hi hphase hmode ho =>
    refine h.setJob_of_none hi rfl nofun ?_
    have hcourse := hchronicle.job i job hi
    simp only [Job.Course, hphase, hmode] at hcourse
    obtain ⟨e, he⟩ := hcourse
    rw [he, hidle hi (by simp [hphase]) (by simp [hphase])]
    exact ⟨e, [], rfl, .queued⟩
  | @finished i job source hi hphase =>
    refine h.setJob_of_none hi rfl nofun ?_
    have hcourse := hchronicle.job i job hi
    simp only [Job.Course, hphase] at hcourse
    obtain ⟨e, he⟩ := hcourse
    rw [he, hidle hi (by simp [hphase]) (by simp [hphase])]
    exact ⟨e, [], rfl, .queued⟩
  | @left i job d phase batch world hi hphase hd =>
    exact absurd (by rw [Departure.result?, hd]) (hapart.answered i job d rfl hi hphase)
  | @compiling i job d x hi hphase hd =>
    exact absurd (by rw [Departure.result?, hd]) (hapart.answered i job d rfl hi hphase)
  | @compiled i job d x text batch hi hphase hd =>
    exact absurd (by rw [Departure.result?, hd]) (hapart.answered i job d rfl hi hphase)
  | @answered i job d text hi hphase hd =>
    refine h.setJob_of_none hi rfl nofun ?_
    have hfate := h.job i job hi
    rw [Job.Fate, hphase] at hfate
    obtain ⟨e, rest, hown, hfate⟩ := hfate
    rw [hd] at hfate
    refine Or.inr ⟨e, d, text, rest, ?_, rfl, hfate⟩
    rw [hown]
    exact List.append_nil _

/-- A step of a load on its way out. -/
theorem leaving (h : Fates environment notes storings p)
    (hequipped : p.batching.environment = environment)
    (hworkshop : p.batching.workshop.environment = environment) {d : Departure}
    (hleaving : Leaving p i d) :
    Fates environment (notes ++ (d.note i p.batching).toList)
      (storings ++ (d.storing i p.batching p.resolution.world).toList)
      (went p i (d.step p.batching p.resolution.world)) := by
  obtain ⟨⟨job, hi, hphase⟩, hd⟩ := hleaving
  have hgoes := d.goes_step p.batching p.resolution.world hd
  refine h.setJob hi rfl (fun _ hx => d.subject_note hx) (fun _ hs => d.subject_storing hs) ?_
  have hfate := h.job i job hi
  rw [Job.Fate, hphase] at hfate
  obtain ⟨e, rest, hown, hfate⟩ := hfate
  rw [← hequipped] at hfate ⊢
  refine ⟨e, _, by rw [hown]; rfl, ?_⟩
  rw [hgoes.contribution]
  exact hfate.goes (hworkshop.trans hequipped.symm) hgoes

theorem submit (h : Fates environment notes storings p) (mode : Mode) (load : Load) (delay : Nat) :
    Fates environment notes storings (Pipeline.submit mode load delay p) where
  job i job hi := by
    simp only [Pipeline.submit, List.getElem?_append] at hi
    split at hi
    · exact h.job i job hi
    · rename_i hlt
      rw [List.mem_singleton.mp (List.mem_of_getElem? hi), Job.Fate]
      exact h.absent i (by omega)
  absent i hi := by
    rw [Pipeline.submit, List.length_append] at hi
    exact h.absent i (by omega)

end Fates

/-- After every run the notes and the storings belong to the phases of the jobs. -/
theorem Run.fates {setup : Setup} {acts : List Act} (h : Run setup acts) :
    Fates setup.config.environment (setup.notes acts) (setup.storings acts) (setup.after acts) := by
  induction h with
  | start => exact ⟨fun _ _ hi => (nomatch hi), fun _ _ => rfl⟩
  | @act acts act hrun hpossible ih =>
    rw [after_concat, notes_concat, storings_concat]
    cases act with
    | submit mode load delay =>
      simp only [Act.read, List.append_nil]
      exact ih.submit mode load delay
    | elsewhere disk kind =>
      simp only [Act.read, List.append_nil]
      exact ⟨ih.job, ih.absent⟩
    | step task =>
      simp only [Act.apply, Act.read]
      rcases leaving_or_apart (setup.after acts) task with ⟨i, d, rfl, hleaving⟩ | hapart
      · obtain ⟨hstep, hnote, hstoring⟩ := step_of_leaving hleaving
        rw [hstep, hnote, hstoring]
        exact ih.leaving hrun.equipped.environment hrun.equipped.workshop hleaving
      · rw [hapart.storing, Option.toList_none, List.append_nil]
        exact ih.move hrun.reached.chronicle (move_of_canStep hpossible) hapart

/-- Who is on its way out has joined, and its notes since then belong to how far it is. -/
theorem Run.fate_of_leaving {setup : Setup} {acts : List Act} (h : Run setup acts) {i : Nat}
    {d : Departure} (hleaving : Leaving (setup.after acts) i d) :
    ∃ e rest, about i (setup.notes acts) = .joined i e :: rest ∧
      Departure.Fate (setup.after acts).batching.environment i d.contribution d.phase rest
        (Storing.about i (setup.storings acts)) := by
  obtain ⟨⟨job, hi, hphase⟩, -⟩ := hleaving
  have hfate := h.fates.job i job hi
  rw [Job.Fate, hphase, ← h.equipped.environment] at hfate
  exact hfate

/-- Who has answered, and was not just deferred, has been a member and has left. -/
theorem Run.fate_of_outcome {setup : Setup} {acts : List Act} (h : Run setup acts) {i : Nat}
    {o : Outcome} (ho : (setup.after acts).outcome? i = some o) {x : Note}
    (hx : x ∈ setup.notes acts) (hsubject : x.subject = i) (hdeferred : x ≠ .deferred i) :
    ∃ e d text rest, about i (setup.notes acts) = .joined i e :: rest ∧ o = answerOf d text ∧
      Departure.Fate setup.config.environment i d.contribution (.settled text) rest
        (Storing.about i (setup.storings acts)) := by
  have hown : x ∈ about i (setup.notes acts) := mem_about.mpr ⟨hx, hsubject⟩
  rw [outcome?] at ho
  split at ho
  · rename_i load mode o' hi
    cases ho
    rcases h.fates.job i _ hi with ⟨-, hnone | ⟨honly, -⟩⟩ | hmember
    · rw [hnone] at hown
      cases hown
    · rw [honly] at hown
      exact absurd (List.mem_singleton.mp hown) hdeferred
    · exact hmember
  · cases ho

end Pipeline

end StyleBatch
