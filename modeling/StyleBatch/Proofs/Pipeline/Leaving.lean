import StyleBatch.Proofs.Pipeline.Acts
import StyleBatch.Proofs.Resolution.Aloof

/-!
# On the way out

A member on its way out leaves the batch, closes it if it was the last one, and has what it has
closed compiled.  All that it can do stands here, case by case, and what is said about compiles and
closed batches is read off these cases.

* `Invocation.Does`, `Invocation.does_step`: a step of a compile, with its note.
* `Departure.Goes`, `Departure.goes_step`: a step of a member on its way out.
-/

namespace StyleBatch

open Pipeline

/-! ## Compiling -/

/-- The artifact's file while a compile has it open. -/
def InvocationPhase.file? : InvocationPhase → Option (List Text)
  | .filling _ file => some file
  | _ => none

namespace Invocation

/-- The compiler gives a text. -/
def Answers (w : Workshop) (call : Call) (text : Text) : Prop :=
  ∃ report, w.compiler.answer call = .ok report ∧ report.isFailure = false ∧ report.text = text

/-- A pause that goes on. -/
inductive Waits : InvocationPhase → InvocationPhase → Prop
  | compiling (call : Call) (pauses : Nat) : call.pauses = pauses + 1 →
      Waits (.compiling call) (.compiling { call with pauses })
  | makingDirectory (pauses : Nat) (text : Text) (made : Except DiskFault Unit) :
      Waits (.makingDirectory (pauses + 1) text made) (.makingDirectory pauses text made)
  | writing (pauses : Nat) (text : Text) (written : Except DiskFault Unit) :
      Waits (.writing (pauses + 1) text written) (.writing pauses text written)

/-- The log after the compiler has given a text. -/
def praised (x : Invocation) (world : World) (text : Text) : World :=
  world.emit (.compileSucceeded x.address (Text.byteSize text) 0)

/-- A step of a compile, with what is noted of it and what becomes of the artifact. -/
inductive Does (i : Nat) (w : Workshop) (world : World) (x : Invocation) :
    Option Note → Option Storing → Invocation × Workshop × World → Prop
  | waited {phase : InvocationPhase} : Waits x.phase phase →
      Does i w world x none none ({ x with phase }, w, world)
  | called {compiler : Compiler} {call : Call} {disk : Disk} : x.phase = .queued →
      w.compiler.call x.source world.disk = (compiler, call, disk) →
      Does i w world x (some (.called i x.source)) none
        ({ x with phase := .compiling call }, { w with compiler }, { world with disk })
  | failed {call : Call} {status : Int} {message : Text} : x.phase = .compiling call →
      call.pauses = 0 → (∀ text, ¬Answers w call text) →
      Does i w world x (some (.answered i x.source (w.compiler.answer call))) none
        ({ x with phase := .settled none }, w,
          world.emit (.compileFailed x.address status message x.source))
  /-- The text is for the artifact, too, and a directory is made for that. -/
  | beganMaking {call : Call} {text : Text} {made : Except DiskFault Unit} {parent : Text}
      {disk : Disk} : x.phase = .compiling call → call.pauses = 0 → Answers w call text →
      w.environment.persists = true → attempt world.disk (world.disk.makePath parent) = (made, disk) →
      Does i w world x (some (.answered i x.source (w.compiler.answer call))) none
        ({ x with phase := .makingDirectory 1 text made }, w, { x.praised world text with disk })
  | beganWriting {call : Call} {text : Text} : x.phase = .compiling call → call.pauses = 0 →
      Answers w call text → w.environment.persists = true →
      Does i w world x (some (.answered i x.source (w.compiler.answer call))) none
        ({ x with phase := .opening text }, w, x.praised world text)
  | kept {call : Call} {text : Text} : x.phase = .compiling call → call.pauses = 0 →
      Answers w call text → w.environment.persists = false →
      Does i w world x (some (.answered i x.source (w.compiler.answer call))) none
        ({ x with phase := .settled (some text) }, w, x.praised world text)
  | made {text : Text} : x.phase = .makingDirectory 0 text (.ok ()) →
      Does i w world x none none ({ x with phase := .opening text }, w, world)
  | opened {text : Text} {file : List Text} {disk : Disk} : x.phase = .opening text →
      world.disk.create w.artifact.path = .ok (file, disk) →
      Does i w world x none none ({ x with phase := .filling text file }, w, { world with disk })
  | unopened {text : Text} {fault : DiskFault} : x.phase = .opening text →
      world.disk.create w.artifact.path = .error fault →
      Does i w world x none none ({ x with phase := .writing 1 text (.error fault) }, w, world)
  | filled {text : Text} {file : List Text} : x.phase = .filling text file →
      Does i w world x none (some (.written i text)) ({ x with phase := .writing 0 text (.ok ()) },
        w, { world with disk := world.disk.overwrite file (Utf8.encode text) })
  | stored {text : Text} : x.phase = .writing 0 text (.ok ()) →
      Does i w world x none none ({ x with phase := .settled (some text) }, w,
        world.emit (.artifactWritten w.artifact.path (Text.byteSize text)))
  | refused {text : Text} {fault : DiskFault} {message : Text} :
      x.phase = .makingDirectory 0 text (.error fault) ∨ x.phase = .writing 0 text (.error fault) →
      Does i w world x none (some (.refused i text)) ({ x with phase := .settled (some text) }, w,
        world.emit (.artifactNotWritten w.artifact.path message))

variable (i : Nat) (w : Workshop) (world : World) (x : Invocation)

/-- The text goes to the artifact. -/
theorem does_beginPersisting {call : Call} {text : Text} (hx : x.phase = .compiling call)
    (hpauses : call.pauses = 0) (hanswers : Answers w call text)
    (hpersists : w.environment.persists = true) :
    Does i w world x (some (.answered i x.source (w.compiler.answer call)))
      (stored? i (x.beginPersisting w (x.praised world text) text).1.phase)
      (x.beginPersisting w (x.praised world text) text) := by
  have hdirect : Does i w world x (some (.answered i x.source (w.compiler.answer call)))
      (stored? i (x.beginWriting w (x.praised world text) text).1.phase)
      (x.beginWriting w (x.praised world text) text) :=
    .beganWriting hx hpauses hanswers hpersists
  rw [beginPersisting]
  dsimp only
  split
  · exact hdirect
  · exact hdirect
  · exact .beganMaking hx hpauses hanswers hpersists rfl

/-- The compiler has answered. -/
theorem does_answered {call : Call} (hx : x.phase = .compiling call) (hpauses : call.pauses = 0) :
    Does i w world x (x.note i w) (x.storing i w world) (x.step w world) := by
  have hfailed : ∀ status message, (∀ text, ¬Answers w call text) →
      Does i w world x (some (.answered i x.source (w.compiler.answer call))) none
        ({ x with phase := .settled none }, w,
          world.emit (.compileFailed x.address status message x.source)) :=
    fun status message hnot => .failed hx hpauses hnot
  have hpersisting := fun text => @does_beginPersisting i w world x call text hx hpauses
  have hkept := fun text => @Does.kept i w world x call text hx hpauses
  simp only [note, storing, step, hx, hpauses]
  cases hanswer : w.compiler.answer call with
  | error fault =>
    rw [hanswer] at hfailed
    refine hfailed _ _ ?_
    rintro text ⟨report, hok, -⟩
    rw [hanswer] at hok
    cases hok
  | ok report =>
    rw [hanswer] at hfailed hpersisting hkept
    dsimp only
    cases hfailure : report.isFailure with
    | true =>
      refine hfailed _ _ ?_
      rintro text ⟨report', hok, hsuccess, -⟩
      rw [hanswer] at hok
      cases hok
      rw [hfailure] at hsuccess
      cases hsuccess
    | false =>
      have hanswers : Answers w call report.text := ⟨report, hanswer, hfailure, rfl⟩
      cases hpersists : w.environment.persists with
      | true => exact hpersisting _ hanswers hpersists
      | false => exact hkept _ hanswers hpersists

/-- The artifact's file is opened, or the system refuses. -/
theorem does_opening {text : Text} (hx : x.phase = .opening text) :
    Does i w world x (x.note i w) (x.storing i w world) (x.step w world) := by
  simp only [note, storing, step, hx, openArtifact]
  cases hcreate : world.disk.create w.artifact.path with
  | ok created => exact .opened hx hcreate
  | error fault => exact .unopened hx hcreate

/-- Every step of a compile is one of these. -/
theorem does_step (hx : x.result? = none) :
    Does i w world x (x.note i w) (x.storing i w world) (x.step w world) := by
  obtain ⟨source, address, phase⟩ := x
  cases phase with
  | queued => exact .called rfl rfl
  | compiling call =>
    obtain ⟨csource, pauses, reply⟩ := call
    cases pauses with
    | succ pauses => exact .waited (.compiling _ _ rfl)
    | zero => exact does_answered i w world ⟨source, address, _⟩ rfl rfl
  | makingDirectory pauses text made =>
    cases pauses with
    | succ pauses => exact .waited (.makingDirectory pauses text made)
    | zero =>
      cases made with
      | error fault => exact .refused (Or.inl rfl)
      | ok => exact .made rfl
  | opening text => exact does_opening i w world ⟨source, address, _⟩ rfl
  | filling text file => exact .filled rfl
  | writing pauses text written =>
    cases pauses with
    | succ pauses => exact .waited (.writing pauses text written)
    | zero =>
      cases written with
      | ok => exact .stored rfl
      | error fault => exact .refused (Or.inr rfl)
  | settled text => cases hx

end Invocation

/-! ## Leaving -/

/-- Whether the member closes the batch that it takes along. -/
def Contribution.closes : Contribution → ClosedBatch → Bool
  | source _, _ => true
  | failure _, closed => !closed.source.isEmpty

/-- The batch that is closed when a member leaves. -/
def Contribution.closing (c : Contribution) (b : Batch) : Option ClosedBatch :=
  (c.leave b).1.filter c.closes

namespace Departure

theorem result?_eq_some {d : Departure} {text : Text} :
    d.result? = some text ↔ d.phase = .settled text := by
  rw [result?]
  cases d.phase <;> simp

variable (d : Departure) (b : Batching) (world : World)

/-- What is said of a member that leaves. -/
def farewell : World :=
  match d.contribution with
  | .source _ => world
  | .failure fault => world.emit (.loadFailed d.address fault.message)

theorem disk_farewell : (d.farewell world).disk = world.disk := by
  rw [farewell]
  split <;> rfl

theorem batchEvents_farewell : (d.farewell world).log.batchEvents = world.log.batchEvents := by
  rw [farewell]
  split
  · rfl
  · exact Log.batchEvents_emit_of_not rfl _

/-- What is said of a batch that is closed. -/
def closedEvent (closed : ClosedBatch) : EventKind :=
  .batchClosed closed.epoch closed.members d.address (Text.byteSize closed.source)
    (Digest.ofText closed.source)

/-- The compile of a batch that the member has closed. -/
def sent (closed : ClosedBatch) : Departure :=
  { d with phase := .compiling { source := closed.source, address := d.address } }

/-- Leaving is closing the batch or nothing. -/
theorem leave_eq : d.leave b world =
    match d.contribution.closing b.batch with
    | some closed =>
      d.close closed { b with batch := (d.contribution.leave b.batch).2 } (d.farewell world)
    | none => ({ d with phase := .settled [] },
      { b with batch := (d.contribution.leave b.batch).2 }, d.farewell world) := by
  obtain ⟨address, contribution, phase⟩ := d
  cases contribution with
  | source t =>
    have hleave : { b.batch with buffer := b.batch.buffer ++ t }.leave =
      (Contribution.source t).leave b.batch := rfl
    simp only [leave, hleave, Contribution.closing, farewell]
    generalize (Contribution.source t).leave b.batch = left
    obtain ⟨closed, batch⟩ := left
    cases closed <;> rfl
  | failure fault =>
    have hleave : b.batch.leave = (Contribution.failure fault).leave b.batch := by
      rw [Contribution.leave, Contribution.text, List.append_nil]
    simp only [leave, hleave, Contribution.closing, farewell]
    generalize (Contribution.failure fault).leave b.batch = left
    obtain ⟨closed, batch⟩ := left
    cases closed with
    | none => rfl
    | some closed =>
      cases hempty : closed.source.isEmpty <;>
        simp [Option.filter, Contribution.closes, hempty]

/-- All that a member on its way out can do. -/
inductive Goes : Departure × Batching × World → Prop
  | left : d.phase = .queued → d.contribution.closing b.batch = none →
      Goes ({ d with phase := .settled [] },
        { b with batch := (d.contribution.leave b.batch).2 }, d.farewell world)
  | closed {closed : ClosedBatch} {batch : Batch} : d.phase = .queued →
      d.contribution.closing b.batch = some closed →
      SameCounts (d.contribution.leave b.batch).2 batch → batch.bootstrapped = b.batch.bootstrapped →
      batch.hasCompiled = (b.batch.hasCompiled || !b.environment.authoritative) →
      (b.environment.authoritative || b.batch.hasCompiled) = true →
      Goes (d.sent closed, { b with batch }, (d.farewell world).emit (d.closedEvent closed))
  /-- Outside the authoritative process the first batch is not compiled. -/
  | skipped {closed : ClosedBatch} {batch : Batch} : d.phase = .queued →
      d.contribution.closing b.batch = some closed →
      SameCounts (d.contribution.leave b.batch).2 batch → batch.bootstrapped = b.batch.bootstrapped →
      batch.hasCompiled = true → b.environment.authoritative = false →
      b.batch.hasCompiled = false →
      Goes ({ d with phase := .settled [] }, { b with batch },
        ((d.farewell world).emit (d.closedEvent closed)).emit (.firstCompileSkipped closed.epoch))
  | invoked {x : Invocation} : d.phase = .compiling x → x.result? = none →
      Goes (let (x', workshop, world) := x.step b.workshop world
        ({ d with phase := .compiling x' }, { b with workshop }, world))
  | failed {x : Invocation} : d.phase = .compiling x → x.phase = .settled none →
      Goes ({ d with phase := .settled [] }, b, world)
  | compiled {x : Invocation} {text : Text} : d.phase = .compiling x →
      x.phase = .settled (some text) →
      Goes ({ d with phase := .settled text },
        { b with batch := { b.batch with
          hasCompiled := b.batch.hasCompiled || b.environment.authoritative } }, world)

theorem bootstrapped_leave (c : Contribution) (b : Batch) :
    (c.leave b).2.bootstrapped = b.bootstrapped := by
  rw [Ledger.leave_eq]
  split <;> rfl

theorem hasCompiled_leave (c : Contribution) (b : Batch) :
    (c.leave b).2.hasCompiled = b.hasCompiled := by
  rw [Ledger.leave_eq]
  split <;> rfl

theorem goes_leave (hd : d.phase = .queued) : Goes d b world (d.leave b world) := by
  rw [leave_eq]
  cases hclosing : d.contribution.closing b.batch with
  | none => exact .left hd hclosing
  | some closed =>
    have hcompiled := hasCompiled_leave d.contribution b.batch
    have hbootstrapped := bootstrapped_leave d.contribution b.batch
    dsimp only
    rw [close]
    cases hauthoritative : b.environment.authoritative with
    | true =>
      refine .closed hd hclosing (.refl _) hbootstrapped ?_ ?_
      · simp [hcompiled, hauthoritative]
      · simp [hauthoritative]
    | false =>
      rw [if_neg Bool.false_ne_true]
      dsimp only
      rw [hcompiled]
      cases hfirst : b.batch.hasCompiled with
      | true =>
        refine .closed hd hclosing ⟨rfl, rfl, rfl, rfl⟩ hbootstrapped ?_ ?_
        · simp [hfirst]
        · simp [hfirst]
      | false =>
        exact .skipped hd hclosing ⟨rfl, rfl, rfl, rfl⟩ hbootstrapped rfl hauthoritative hfirst

/-- Every step of a member on its way out is one of these. -/
theorem goes_step (hd : d.result? = none) : Goes d b world (d.step b world) := by
  rw [step]
  cases hphase : d.phase with
  | queued => exact goes_leave d b world hphase
  | compiling x =>
    dsimp only
    cases hx : x.phase with
    | settled text =>
      cases text with
      | none =>
        simp only [Invocation.result?, hx]
        exact .failed hphase hx
      | some text =>
        simp only [Invocation.result?, hx]
        exact .compiled hphase hx
    | _ =>
      simp only [Invocation.result?, hx]
      exact .invoked hphase (by rw [Invocation.result?, hx])
  | settled text => simp [result?, hphase] at hd

end Departure

end StyleBatch
