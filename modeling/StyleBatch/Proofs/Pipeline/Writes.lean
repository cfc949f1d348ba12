import StyleBatch.Proofs.Files
import StyleBatch.Proofs.Pipeline.Fate
import StyleBatch.Proofs.Pipeline.Turns

/-!
# Writing the artifact

A step of a member on its way out may open the artifact's file, write into it or make directories for
it, and a step that calls the compiler gives the disk away; every other step leaves the disk as it is.
A file that is opened is empty until its text is written.  So if no two compiles have it open at once,
and nobody else touches it, the text that was written last is read.

* `Stored`, `stored_step`: what a step does to the artifact.
* `Untouched`: others and the compiler leave the artifact as it is.
* `OneWriter`: no two compiles have the artifact's file open at once.
* `Run.kept`: who has the file open finds it empty, and if nobody has, it holds the last text.
-/

namespace StyleBatch

open Notes Pipeline

def Departure.file? (d : Departure) : Option (List Text) :=
  match d.phase with
  | .compiling x => x.phase.file?
  | _ => none

def Pipeline.JobPhase.file? : JobPhase → Option (List Text)
  | .leaving d => d.file?
  | _ => none

/-- The artifact's file while the load numbered `i` has it open. -/
def Pipeline.file? (p : Pipeline) (i : Nat) : Option (List Text) :=
  p.jobs[i]?.bind fun job => job.phase.file?

/-- What a step does to the file at the path, which the load that is stepped may have `opened`. -/
inductive Stored (i : Nat) (path : Text) (note : Option Note) (storing : Option Storing)
    (opened : Option (List Text)) (disk : Disk) (opened' : Option (List Text)) (disk' : Disk) : Prop
  | emptied : opened' = some (disk.target path) → storing = none →
      disk'.workingDirectory = disk.workingDirectory → disk'.read path = .ok [] →
      Stored i path note storing opened disk opened' disk'
  | filled (file : List Text) (t : Text) : opened = some file → opened' = none →
      storing = some (.written i t) → disk' = disk.overwrite file (Utf8.encode t) →
      Stored i path note storing opened disk opened' disk'
  | kept : opened' = opened → (∀ j t, storing ≠ some (.written j t)) →
      disk'.workingDirectory = disk.workingDirectory →
      (∀ bytes, disk.read path = .ok bytes → disk'.read path = .ok bytes) →
      Stored i path note storing opened disk opened' disk'
  /-- The disk was handed to the compiler. -/
  | called (source : Text) : opened' = opened → storing = none → note = some (.called i source) →
      Stored i path note storing opened disk opened' disk'

section

variable {i : Nat} {path : Text} {note : Option Note} {storing : Option Storing}
  {opened opened' : Option (List Text)} {disk disk' : Disk}

theorem stored_of_eq (hopened : opened' = opened) (hstoring : ∀ j t, storing ≠ some (.written j t))
    (hdisk : disk' = disk) : Stored i path note storing opened disk opened' disk' := by
  subst hdisk
  exact .kept hopened hstoring rfl fun _ h => h

/-- What a step of a compile does to the artifact. -/
theorem stored_of_does {w w' : Workshop} {world world' : World} {x x' : Invocation}
    (h : Invocation.Does i w world x note storing (x', w', world'))
    (hreal : world.disk.leadsToNull w.artifact.path = false) :
    Stored i w.artifact.path note storing x.phase.file? world.disk x'.phase.file? world'.disk := by
  cases h with
  | waited hwaits =>
    refine stored_of_eq ?_ nofun rfl
    generalize x.phase = phase at hwaits
    cases hwaits <;> rfl
  | called hphase => exact .called _ (by rw [hphase]; rfl) rfl rfl
  | failed hphase | beganWriting hphase | kept hphase | made hphase | unopened hphase
  | stored hphase => exact stored_of_eq (by rw [hphase]; rfl) nofun rfl
  | refused hphase =>
    refine stored_of_eq ?_ nofun rfl
    rcases hphase with hphase | hphase <;> rw [hphase] <;> rfl
  | @beganMaking call text made parent disk hphase _ _ _ hattempt =>
    have hopened : InvocationPhase.file? (.makingDirectory 1 text made) = x.phase.file? := by
      rw [hphase]
      rfl
    cases hmade : world.disk.makePath parent with
    | error fault =>
      rw [hmade] at hattempt
      cases hattempt
      exact stored_of_eq hopened nofun rfl
    | ok made =>
      rw [hmade] at hattempt
      cases hattempt
      have hgrows := Disk.grows_makePath hmade
      exact .kept hopened nofun hgrows.1 fun _ hread => hgrows.read hread
  | opened hphase hcreate =>
    obtain ⟨rfl, hwrite⟩ := Disk.create_eq_ok_iff.mp hcreate
    exact .emptied rfl rfl (Disk.workingDirectory_write hwrite) (Disk.read_write hwrite hreal)
  | @filled text file hphase => exact .filled file text (by rw [hphase]; rfl) rfl rfl rfl

/-- What a member on its way out does to the artifact. -/
theorem stored_of_goes {d : Departure} {b : Batching} {world : World}
    {out : Departure × Batching × World} (h : d.Goes b world out)
    (hreal : world.disk.leadsToNull b.workshop.artifact.path = false) :
    Stored i b.workshop.artifact.path (d.note i b) (d.storing i b world) d.file? world.disk
      out.1.file? out.2.2.disk := by
  cases h with
  | left hphase | closed hphase | skipped hphase =>
    refine stored_of_eq ?_ ?_ (d.disk_farewell world)
    · simp only [Departure.file?, Departure.sent, hphase, InvocationPhase.file?]
    · simp [Departure.storing, hphase]
  | @invoked x hphase hx =>
    rw [Departure.note, Departure.storing, Departure.file?, hphase]
    exact stored_of_does (x.does_step i b.workshop world hx) hreal
  | failed hphase hx | compiled hphase hx =>
    refine stored_of_eq ?_ ?_ rfl
    · simp only [Departure.file?, hphase, hx]
      rfl
    · simp [Departure.storing, hphase, Invocation.storing, hx, Invocation.step, Invocation.stored?]

end

namespace Pipeline

variable {setup : Setup} {acts : List Act} {p : Pipeline} {i : Nat}

theorem file?_setJob {job : Job} (hi : p.jobs[i]? = some job) (phase : JobPhase) :
    (setJob p i phase).file? i = phase.file? := by
  rw [file?, getElem?_setJob, if_pos rfl, hi]
  rfl

/-- Who has no compile going has no file open. -/
theorem JobPhase.file?_eq_none {phase : JobPhase}
    (h : ∀ d, phase = .leaving d → d.result? ≠ none) : phase.file? = none := by
  cases phase with
  | leaving d =>
    have hd := h d rfl
    rw [JobPhase.file?, Departure.file?]
    split
    · rename_i hcompiling
      simp [Departure.result?, hcompiling] at hd
    · rfl
  | _ => rfl

/-- Who is not compiling opens no file. -/
theorem file?_stepJob {job : Job} (hi : p.jobs[i]? = some job)
    (hnot : ∀ d, job.phase = .leaving d → d.result? ≠ none) :
    (stepJob p i job).file? i = none ∧ p.file? i = none := by
  have hstays : p.file? i = none := by
    rw [file?, hi]
    exact JobPhase.file?_eq_none hnot
  refine ⟨?_, hstays⟩
  rw [stepJob]
  split
  · exact file?_setJob hi _
  · split
    · exact file?_setJob hi _
    · dsimp only
      split
      · exact file?_setJob hi _
      · exact file?_setJob hi _
  · split
    · exact hstays
    · split
      · exact file?_setJob hi _
      · exact file?_setJob hi _
      · exact file?_setJob hi _
  · exact file?_setJob hi _
  · exact file?_setJob hi _
  · split
    · exact file?_setJob hi _
    · rename_i d hphase _ hd
      exact absurd hd (hnot d hphase)
  · exact hstays

/-- A step leaves what other loads have open. -/
theorem file?_step_of_ne {task : Task} (h : task ≠ .job i) : (step task p).file? i = p.file? i := by
  rw [file?, getElem?_step_of_ne p h, file?]

/-- A step that is apart from all compiles opens and closes no file. -/
theorem file?_of_apart {task : Task} (h : Apart p task) (i : Nat) :
    (step task p).file? i = p.file? i := by
  by_cases htask : task = .job i
  · subst htask
    cases hi : p.jobs[i]? with
    | none => simp only [step, hi]
    | some job =>
      obtain ⟨hstep, hold⟩ := file?_stepJob hi fun d => h.answered i job d rfl hi
      simp only [step, hi]
      rw [hstep, hold]
  · exact file?_step_of_ne htask

theorem file?_submit (mode : Mode) (load : Load) (delay i : Nat) :
    (submit mode load delay p).file? i = p.file? i := by
  simp only [file?, submit, List.getElem?_append]
  split
  · rfl
  · rename_i hlt
    rw [List.getElem?_eq_none (Nat.not_lt.mp hlt)]
    cases hi : i - p.jobs.length with
    | zero => rfl
    | succ n => rfl

/-- What a step of a task does to the artifact. -/
theorem stored_step (task : Task)
    (hreal : p.disk.leadsToNull p.batching.workshop.artifact.path = false) :
    ∃ i, (∀ j ≠ i, (step task p).file? j = p.file? j) ∧
      Stored i p.batching.workshop.artifact.path (note p task) (storing p task) (p.file? i) p.disk
        ((step task p).file? i) (step task p).disk := by
  rcases leaving_or_apart p task with ⟨i, d, rfl, hleaving⟩ | hapart
  · obtain ⟨hstep, hnote, hstoring⟩ := step_of_leaving hleaving
    refine ⟨i, fun j hj => file?_step_of_ne fun h => hj (Task.job.inj h).symm, ?_⟩
    obtain ⟨⟨job, hi, hphase⟩, hd⟩ := hleaving
    have hold : p.file? i = d.file? := by rw [file?, hi, Option.bind_some, hphase, JobPhase.file?]
    rw [hstep, hnote, hstoring, hold, file?, getElem?_went hi]
    exact stored_of_goes (d.goes_step p.batching p.resolution.world hd) hreal
  · refine ⟨0, fun j _ => file?_of_apart hapart j, ?_⟩
    exact stored_of_eq (file?_of_apart hapart 0) (by rw [hapart.storing]; exact nofun)
      hapart.books.disk

/-- The act is one of others, or hands the disk to the compiler. -/
def Act.outside (act : Act) (p : Pipeline) : Bool :=
  match act with
  | .submit .. => false
  | .step task => !(called (note p task).toList).isEmpty
  | .elsewhere .. => true

/-- Nobody else touches the artifact or goes to another directory, and the artifact is a file. -/
structure Untouched (setup : Setup) (acts : List Act) : Prop where
  kept : ∀ before act, before ++ [act] <+: acts → act.outside (setup.after before) = true →
    (act.apply (setup.after before)).disk.workingDirectory =
        (setup.after before).disk.workingDirectory ∧
      (act.apply (setup.after before)).disk.read setup.config.artifact.path =
        (setup.after before).disk.read setup.config.artifact.path
  real : ∀ before, before <+: acts →
    (setup.after before).disk.leadsToNull setup.config.artifact.path = false

theorem Untouched.of_prefix {before : List Act} (h : Untouched setup acts)
    (hbefore : before <+: acts) : Untouched setup before where
  kept _ act hstart := h.kept _ act (hstart.trans hbefore)
  real _ hstart := h.real _ (hstart.trans hbefore)

/-- At most one load has the artifact's file open. -/
def Alone (p : Pipeline) : Prop :=
  ∀ i j, (p.file? i).isSome → (p.file? j).isSome → i = j

/-- No two compiles have the artifact's file open at once. -/
def OneWriter (setup : Setup) (acts : List Act) : Prop :=
  ∀ before, before <+: acts → Alone (setup.after before)

theorem OneWriter.of_prefix {before : List Act} (h : OneWriter setup acts)
    (hbefore : before <+: acts) : OneWriter setup before :=
  fun _ hstart => h _ (hstart.trans hbefore)

/-- Who has the artifact's file open finds it empty; if nobody has, it holds the text that was
written last. -/
structure Kept (path : Text) (storings : List Storing) (p : Pipeline) : Prop where
  empty : ∀ i file, p.file? i = some file → file = p.disk.target path ∧ p.disk.read path = .ok []
  last : (∀ i, p.file? i = none) → ∀ i t, storings.getLast? = some (.written i t) →
    p.disk.read path = .ok (Utf8.encode t)

namespace Kept

variable {path : Text} {storings : List Storing} {p' : Pipeline}

/-- What opens no file, writes no text and leaves what is read keeps that. -/
theorem same (h : Kept path storings p) (hfile : ∀ i, p'.file? i = p.file? i)
    (hdirectory : p'.disk.workingDirectory = p.disk.workingDirectory)
    (hread : ∀ bytes, p.disk.read path = .ok bytes → p'.disk.read path = .ok bytes) :
    Kept path storings p' where
  empty i file hopen := by
    obtain ⟨hplace, hempty⟩ := h.empty i file (hfile i ▸ hopen)
    rw [Disk.target_congr hdirectory]
    exact ⟨hplace, hread _ hempty⟩
  last hnobody i t ht := hread _ (h.last (fun i => hfile i ▸ hnobody i) i t ht)

/-- So does opening the artifact's file, if nobody else has it open. -/
theorem emptied (hopened : p'.file? i = some (p.disk.target path))
    (hdirectory : p'.disk.workingDirectory = p.disk.workingDirectory)
    (hempty : p'.disk.read path = .ok []) (halone' : Alone p') : Kept path storings p' where
  empty j file hopen := by
    obtain rfl := halone' i j (by simp [hopened]) (by simp [hopen])
    rw [hopened, Option.some.injEq] at hopen
    rw [Disk.target_congr hdirectory]
    exact ⟨hopen.symm, hempty⟩
  last hnone := by simp [hnone i] at hopened

/-- So does writing a text into it. -/
theorem filled (h : Kept path storings p) {file : List Text} {t : Text}
    (hothers : ∀ j ≠ i, p'.file? j = p.file? j) (hopened : p.file? i = some file)
    (hclosed : p'.file? i = none) (hdisk : p'.disk = p.disk.overwrite file (Utf8.encode t))
    (halone : Alone p) (hreal : p.disk.leadsToNull path = false) :
    Kept path (storings ++ [.written i t]) p' where
  empty j file' hopen := by
    -- nobody else has it open, and the file was closed
    by_cases hj : j = i
    · rw [hj, hclosed] at hopen
      cases hopen
    · rw [hothers j hj] at hopen
      exact absurd (halone j i (by simp [hopen]) (by simp [hopened])) hj
  last _ j t' hlast := by
    obtain ⟨rfl, hempty⟩ := h.empty i file hopened
    rw [List.getLast?_concat] at hlast
    cases hlast
    rw [hdisk]
    exact Disk.read_overwrite hempty hreal _

/-- A step keeps that, if the compiler leaves what is read when it is called. -/
theorem stored (h : Kept path storings p) {note : Option Note} {storing : Option Storing}
    (hothers : ∀ j ≠ i, p'.file? j = p.file? j)
    (hstored : Stored i path note storing (p.file? i) p.disk (p'.file? i) p'.disk)
    (hcalled : ∀ source, note = some (.called i source) →
      p'.disk.workingDirectory = p.disk.workingDirectory ∧ p'.disk.read path = p.disk.read path)
    (hsucceeded : ∀ i t, storing ≠ some (.refused i t)) (halone : Alone p) (halone' : Alone p')
    (hreal : p.disk.leadsToNull path = false) : Kept path (storings ++ storing.toList) p' := by
  have hsame : p'.file? i = p.file? i → ∀ j, p'.file? j = p.file? j := by
    intro hi j
    by_cases hj : j = i
    · rw [hj, hi]
    · exact hothers j hj
  cases hstored with
  | emptied hopened _ hdirectory hempty => exact .emptied hopened hdirectory hempty halone'
  | filled file t hopened hclosed hstoring hdisk =>
    rw [hstoring, Option.toList_some]
    exact h.filled hothers hopened hclosed hdisk halone hreal
  | kept hopened hnot hdirectory hread =>
    have hnone : storing = none := by
      cases storing with
      | none => rfl
      | some s =>
        cases s with
        | written j t => exact absurd rfl (hnot j t)
        | refused j t => exact absurd rfl (hsucceeded j t)
    rw [hnone, Option.toList_none, List.append_nil]
    exact h.same (hsame hopened) hdirectory hread
  | called source hopened hstoring hnote =>
    obtain ⟨hdirectory, hread⟩ := hcalled source hnote
    rw [hstoring, Option.toList_none, List.append_nil]
    exact h.same (hsame hopened) hdirectory fun _ hbytes => hread.trans hbytes

end Kept

/-- If nobody else touches the artifact and no write fails, who has its file open finds it empty, and
if nobody has, it holds the text that was written last. -/
theorem Run.kept (h : Run setup acts) (huntouched : Untouched setup acts)
    (hone : OneWriter setup acts) (hsucceeded : ∀ i t, .refused i t ∉ setup.storings acts) :
    Kept setup.config.artifact.path (setup.storings acts) (setup.after acts) := by
  induction h with
  | start =>
    refine ⟨fun i file hopen => ?_, fun _ i t hlast => ?_⟩
    · cases hopen
    · cases hlast
  | @act acts act hrun hpossible ih =>
    have hbefore : acts <+: acts ++ [act] := List.prefix_append ..
    have halone' := hone _ List.prefix_rfl
    rw [storings_concat] at hsucceeded ⊢
    rw [after_concat] at halone' ⊢
    have hold := ih (huntouched.of_prefix hbefore) (hone.of_prefix hbefore) fun i t hmem =>
      hsucceeded i t (List.mem_append_left _ hmem)
    have houtside := huntouched.kept acts act List.prefix_rfl
    cases act with
    | submit mode load delay =>
      simp only [Act.read, List.append_nil]
      exact hold.same (file?_submit mode load delay) rfl fun _ hbytes => hbytes
    | elsewhere disk kind =>
      obtain ⟨hdirectory, hread⟩ := houtside rfl
      simp only [Act.read, List.append_nil]
      exact hold.same (fun _ => rfl) hdirectory fun _ hbytes => hread.trans hbytes
    | step task =>
      have hreal := huntouched.real acts hbefore
      obtain ⟨k, hothers, hstored⟩ := stored_step task (hrun.equipped.artifact ▸ hreal)
      rw [hrun.equipped.artifact] at hstored
      refine hold.stored hothers hstored (fun source hnote => houtside ?_) (fun i t hrefused => ?_)
        (hone acts hbefore) halone' hreal
      · rw [Act.outside, hnote]
        rfl
      · exact hsucceeded i t (by simp [Act.read, hrefused])

end Pipeline

end StyleBatch
