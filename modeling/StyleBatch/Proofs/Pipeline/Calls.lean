import StyleBatch.Proofs.Files
import StyleBatch.Proofs.Pipeline.Closings

/-!
# Compiles one after the other

Sources are sent to the compiler one after the other.  Whatever it answers, and whatever the system
refuses, each call ends with the compiler's text or with none, has said so once, and has said once
more what became of the artifact if that was to be written.  The artifact is what the last call has
left there that says so.

* `Invocation.Moves`: a step of a call; the system may refuse to make a directory or to open the
  artifact's file.
* `Invocation.Runs`: such steps, and what it is when the open file cannot be written.
* `Invocation.Stage`: a phase with the answer, the events and the write that belong to it.
* `Invocation.Along.move`: one step on.
* `Invocation.Runs.along`: so they belong together along a call.
* `Invocation.Runs.steps_le`, `exists_result`: a call comes to an end.
* `Invocation.told_oneByOne`: what is known of the calls, and of the artifact behind them.
-/

namespace StyleBatch

namespace Log

/-- The kinds of the events that have come to a log. -/
def since (before log : Log) : List EventKind :=
  (log.drop before.length).map Event.kind

theorem emitAll_append (log : Log) (kinds kinds' : List EventKind) :
    log.emitAll (kinds ++ kinds') = (log.emitAll kinds).emitAll kinds' :=
  List.foldl_append ..

theorem exists_emitAll (log : Log) (kinds : List EventKind) :
    ∃ events, log.emitAll kinds = log ++ events ∧ events.map Event.kind = kinds := by
  induction kinds generalizing log with
  | nil => exact ⟨[], (List.append_nil log).symm, rfl⟩
  | cons kind kinds ih =>
    obtain ⟨events, hlog, hkinds⟩ := ih (log.emit kind)
    refine ⟨⟨log.length, 0, kind⟩ :: events, ?_, by rw [List.map_cons, hkinds]⟩
    rw [emitAll, List.foldl_cons, ← emitAll, hlog, emit, List.append_assoc, List.singleton_append]

theorem since_emitAll (log : Log) (kinds : List EventKind) :
    since log (log.emitAll kinds) = kinds := by
  obtain ⟨events, hlog, hkinds⟩ := exists_emitAll log kinds
  rw [since, hlog, List.drop_left, hkinds]

end Log

namespace Invocation

/-- What the compiler has reported; one that did not run counts as status 1. -/
def verdict : Except Fault Report → Report
  | .ok report => report
  | .error fault => .failure 1 fault.message

/-- The compiler ran, and reported the text with a status not above zero. -/
def Gives (answer : Except Fault Report) (text : Text) : Prop :=
  ∃ report, answer = .ok report ∧ report.status ≤ 0 ∧ report.text = text

/-- The answer that a note is about. -/
def taken : Option Note → Option (Except Fault Report)
  | some (.answered _ _ answer) => some answer
  | _ => none

/-- The answer that the next step of a call takes. -/
def answer? (s : Invocation × Workshop × World) : Option (Except Fault Report) :=
  taken (s.1.note 0 s.2.1)

/-- What the system was asked for is refused. -/
inductive Refuses (fault : DiskFault) : InvocationPhase → InvocationPhase → Prop
  | making (text : Text) (made : Except DiskFault Unit) :
      Refuses fault (.makingDirectory 1 text made) (.makingDirectory 1 text (.error fault))
  | opening (text : Text) (file : List Text) :
      Refuses fault (.filling text file) (.writing 1 text (.error fault))
  | writing (text : Text) (written : Except DiskFault Unit) :
      Refuses fault (.writing 1 text written) (.writing 1 text (.error fault))

/-- A step of a call.  The disk may change with a compiler that is called, and with what the system
refuses, as far as that is `allowed`. -/
inductive Moves (allowed : Disk → Disk → Prop) :
    Invocation × Workshop × World → Invocation × Workshop × World → Prop
  | step {x : Invocation} {w : Workshop} {world : World} : x.result? = none →
      (x.phase = .queued → allowed world.disk (x.step w world).2.2.disk) →
      Moves allowed (x, w, world) (x.step w world)
  | refused {x : Invocation} {w : Workshop} {world : World} {fault : DiskFault}
      {phase : InvocationPhase} {disk : Disk} :
      (x.standing : Standing Unit) = .ready → Refuses fault (x.step w world).1.phase phase →
      allowed world.disk disk →
      Moves allowed (x, w, world)
        ({ x with phase }, (x.step w world).2.1, { (x.step w world).2.2 with disk })

/-- Steps of a call, one after the other, with their number and the compiler's answers.  If the open
file cannot be written, the disk may differ from the one that the call began with, as far as that is
`allowed`. -/
inductive Runs (allowed : Disk → Disk → Prop) (s : Invocation × Workshop × World) :
    Nat → List (Except Fault Report) → Invocation × Workshop × World → Prop
  | refl : Runs allowed s 0 [] s
  | move {n : Nat} {answers : List (Except Fault Report)} {s' s'' : Invocation × Workshop × World} :
      Runs allowed s n answers s' → Moves allowed s' s'' →
      Runs allowed s (n + 1) (answers ++ (answer? s').toList) s''
  | unfilled {n : Nat} {answers : List (Except Fault Report)} {x : Invocation} {w : Workshop}
      {world : World} {text : Text} {file : List Text} {disk : Disk} (fault : DiskFault) :
      Runs allowed s n answers (x, w, world) → x.phase = .filling text file →
      allowed s.2.2.disk disk →
      Runs allowed s (n + 1) answers
        ({ x with phase := .writing 0 text (.error fault) }, w, { world with disk })

/-- A call that has returned. -/
structure Completed where
  source : Text
  address : Text
  before : Workshop × World
  steps : Nat
  answers : List (Except Fault Report)
  result : Option Text
  after : Workshop × World

namespace Completed

def Ran (allowed : Disk → Disk → Prop) (c : Completed) : Prop :=
  ∃ x, Runs allowed (⟨c.source, c.address, .queued⟩, c.before) c.steps c.answers (x, c.after) ∧
    x.phase = .settled c.result

/-- What the call has said. -/
def events (c : Completed) : List EventKind :=
  Log.since c.before.2.log c.after.2.log

/-- The text that went to the artifact, if the call says that it was written. -/
def written (c : Completed) : Option Text :=
  if c.events.any fun kind => kind matches .artifactWritten .. then c.result else none

end Completed

/-- Calls one after the other.  Between them others may use the compiler and the log, and change the
disk as far as that is `allowed`. -/
inductive OneByOne (allowed : Disk → Disk → Prop) (start : Workshop × World) :
    List Completed → Workshop × World → Prop
  | start : OneByOne allowed start [] start
  | call {calls : List Completed} {c : Completed} : OneByOne allowed start calls c.before →
      c.Ran allowed → OneByOne allowed start (calls ++ [c]) c.after
  | elsewhere {calls : List Completed} {w : Workshop} {world : World} (compiler : Compiler)
      (disk : Disk) (log : Log) : OneByOne allowed start calls (w, world) →
      allowed world.disk disk → OneByOne allowed start calls ({ w with compiler }, ⟨disk, log⟩)

/-- The text that was written last. -/
def lastWritten (calls : List Completed) : Option Text :=
  (calls.filterMap Completed.written).getLast?

/-! ## One call -/

/-- What is said of a source that was compiled to the text. -/
def success (address text : Text) : EventKind :=
  .compileSucceeded address (Text.byteSize text) 0

/-- The phase of a call, with the answers it has taken, what it has said, and the text that it has
written.  While it has the artifact's file open, that is the empty text. -/
inductive Stage (persists : Bool) (path source address : Text) :
    InvocationPhase → List (Except Fault Report) → List EventKind → Option Text → Prop
  | queued : Stage persists path source address .queued [] [] none
  | compiling (call : Call) : Stage persists path source address (.compiling call) [] [] none
  | failed {answer : Except Fault Report} : (∀ text, ¬Gives answer text) →
      Stage persists path source address (.settled none) [answer]
        [.compileFailed address (verdict answer).status (verdict answer).message source] none
  | making {answer : Except Fault Report} {text : Text} (pauses : Nat)
      (made : Except DiskFault Unit) : Gives answer text → persists = true →
      Stage persists path source address (.makingDirectory pauses text made) [answer]
        [success address text] none
  | opening {answer : Except Fault Report} {text : Text} : Gives answer text → persists = true →
      Stage persists path source address (.opening text) [answer] [success address text] none
  | filling {answer : Except Fault Report} {text : Text} (file : List Text) : Gives answer text →
      persists = true →
      Stage persists path source address (.filling text file) [answer] [success address text]
        (some [])
  | wrote {answer : Except Fault Report} {text : Text} (pauses : Nat) : Gives answer text →
      persists = true →
      Stage persists path source address (.writing pauses text (.ok ())) [answer]
        [success address text] (some text)
  | unwritten {answer : Except Fault Report} {text : Text} (pauses : Nat) (fault : DiskFault) :
      Gives answer text → persists = true →
      Stage persists path source address (.writing pauses text (.error fault)) [answer]
        [success address text] none
  | kept {answer : Except Fault Report} {text : Text} : Gives answer text → persists = false →
      Stage persists path source address (.settled (some text)) [answer] [success address text] none
  | stored {answer : Except Fault Report} {text : Text} : Gives answer text → persists = true →
      Stage persists path source address (.settled (some text)) [answer]
        [success address text, .artifactWritten path (Text.byteSize text)] (some text)
  | refused {answer : Except Fault Report} {text message : Text} : Gives answer text →
      persists = true →
      Stage persists path source address (.settled (some text)) [answer]
        [success address text, .artifactNotWritten path message] none

/-- What a step does to the disk, and to the text that was written. -/
inductive Touches (allowed : Disk → Disk → Prop) (path : Text) (disk : Disk)
    (written : Option Text) : Disk → Option Text → Prop
  | none : Touches allowed path disk written disk written
  | allowed {disk' : Disk} : allowed disk disk' → Touches allowed path disk written disk' written
  | made {directory : Text} {disk' : Disk} : disk.makePath directory = .ok disk' →
      Touches allowed path disk written disk' written
  | opened {file : List Text} {disk' : Disk} : disk.create path = .ok (file, disk') →
      Touches allowed path disk written disk' (some [])
  | filled (text : Text) : written = some [] →
      Touches allowed path disk written (disk.overwrite (disk.target path) (Utf8.encode text))
        (some text)

/-- A call on its way: it has not changed what it was begun with, has said its events, and is at
the stage that goes with them.  The file that it has open is the artifact's. -/
structure Along (w : Workshop) (log : Log) (source address : Text)
    (s : Invocation × Workshop × World) (answers : List (Except Fault Report))
    (events : List EventKind) (written : Option Text) : Prop where
  subject : s.1.source = source ∧ s.1.address = address
  workshop : s.2.1.environment = w.environment ∧ s.2.1.artifact = w.artifact
  log : s.2.2.log = log.emitAll events
  stage : Stage w.environment.persists w.artifact.path source address s.1.phase answers events
    written
  file : ∀ file, s.1.phase.file? = some file → file = s.2.2.disk.target w.artifact.path

section Step

variable {allowed : Disk → Disk → Prop} {w w₀ : Workshop} {log : Log} {world : World}
  {source address text : Text} {x : Invocation} {s s' : Invocation × Workshop × World}
  {answers : List (Except Fault Report)} {events : List EventKind} {written : Option Text}
  {call : Call}

theorem gives_iff_answers : Answers w call text ↔ Gives (w.compiler.answer call) text := by
  simp only [Answers, Gives, Report.isFailure, decide_eq_false_iff_not, not_lt, gt_iff_lt]

theorem isFailure_verdict {answer : Except Fault Report} (h : ∀ text, ¬Gives answer text) :
    (verdict answer).isFailure = true := by
  cases answer with
  | error fault => rfl
  | ok report =>
    have hnot := h report.text
    rw [Report.isFailure, decide_eq_true_iff]
    exact not_le.mp fun hle => hnot ⟨report, rfl, hle, rfl⟩

/-- A failure is told with what the compiler has reported. -/
theorem step_of_failure (hx : x.phase = .compiling call) (hpauses : call.pauses = 0)
    (hfailure : (verdict (w.compiler.answer call)).isFailure = true) :
    x.step w world = ({ x with phase := .settled none }, w,
      world.emit (.compileFailed x.address (verdict (w.compiler.answer call)).status
        (verdict (w.compiler.answer call)).message x.source)) := by
  simp only [step, hx, hpauses]
  cases hanswer : w.compiler.answer call with
  | error fault =>
    rw [hanswer] at hfailure
    exact if_pos hfailure
  | ok report =>
    rw [hanswer] at hfailure
    exact if_pos hfailure

/-- A pause that goes on changes nothing but the pauses. -/
theorem Stage.waits {persists : Bool} {path : Text} {phase phase' : InvocationPhase}
    (h : Stage persists path source address phase answers events written)
    (hwaits : Waits phase phase') :
    Stage persists path source address phase' answers events written := by
  cases hwaits with
  | compiling =>
    cases h
    exact .compiling _
  | makingDirectory =>
    cases h with
    | making _ _ hgives hpersists => exact .making _ _ hgives hpersists
  | writing =>
    cases h with
    | wrote _ hgives hpersists => exact .wrote _ hgives hpersists
    | unwritten _ _ hgives hpersists => exact .unwritten _ _ hgives hpersists

/-- A file that a step leaves open is the artifact's. -/
theorem Does.file {i : Nat} {note : Option Note} {storing : Option Storing}
    (h : Does i w world x note storing s) {file : List Text} (hopen : s.1.phase.file? = some file) :
    file = s.2.2.disk.target s.2.1.artifact.path := by
  cases h with
  | waited hwaits =>
    generalize x.phase = phase at hwaits
    cases hwaits <;> cases hopen
  | opened _ hcreate =>
    cases hopen
    obtain ⟨hfile, hwrite⟩ := Disk.create_eq_ok_iff.mp hcreate
    exact hfile.trans (Disk.target_congr (Disk.workingDirectory_write hwrite) _).symm
  | _ => cases hopen

/-- What a step says, writes and comes to, if the system does not refuse. -/
theorem Stage.does (allowed : Disk → Disk → Prop) {note : Option Note} {storing : Option Storing}
    (h : Stage w.environment.persists w.artifact.path x.source x.address x.phase answers events
      written)
    (hfile : ∀ file, x.phase.file? = some file → file = world.disk.target w.artifact.path)
    (hdoes : Does 0 w world x note storing s') (hstep : s' = x.step w world)
    (hallowed : x.phase = .queued → allowed world.disk s'.2.2.disk) :
    ∃ kinds written', s'.2.2.log = world.log.emitAll kinds ∧
      Stage w.environment.persists w.artifact.path x.source x.address s'.1.phase
        (answers ++ (taken note).toList) (events ++ kinds) written' ∧
      Touches allowed w.artifact.path world.disk written s'.2.2.disk written' := by
  cases hdoes with
  | waited hwaits =>
    refine ⟨[], written, rfl, ?_, .none⟩
    simpa only [taken, Option.toList_none, List.append_nil] using h.waits hwaits
  | called hphase hcall =>
    rw [hphase] at h
    cases h
    exact ⟨[], none, rfl, .compiling _, .allowed (hallowed hphase)⟩
  | failed hphase hpauses hnot =>
    rw [hphase] at h
    cases h
    have hnone : ∀ text, ¬Gives (w.compiler.answer _) text := fun text hgives =>
      hnot text (gives_iff_answers.mpr hgives)
    rw [hstep, step_of_failure hphase hpauses (isFailure_verdict hnone)]
    exact ⟨[_], none, rfl, .failed hnone, .none⟩
  | @beganMaking call text made parent disk hphase _ hanswers hpersists hattempt =>
    rw [hphase] at h
    cases h
    refine ⟨[success x.address text], none, rfl,
      .making 1 made (gives_iff_answers.mp hanswers) hpersists, ?_⟩
    cases hmade : world.disk.makePath parent with
    | ok disk' =>
      rw [hmade] at hattempt
      cases hattempt
      exact .made hmade
    | error fault =>
      rw [hmade] at hattempt
      cases hattempt
      exact .none
  | @beganWriting call text hphase _ hanswers hpersists =>
    rw [hphase] at h
    cases h
    exact ⟨[success x.address text], none, rfl,
      .opening (gives_iff_answers.mp hanswers) hpersists, .none⟩
  | @kept call text hphase _ hanswers hpersists =>
    rw [hphase] at h
    cases h
    exact ⟨[success x.address text], none, rfl, .kept (gives_iff_answers.mp hanswers) hpersists,
      .none⟩
  | made hphase =>
    rw [hphase] at h
    cases h with
    | making _ _ hgives hpersists => exact ⟨[], none, rfl, .opening hgives hpersists, .none⟩
  | opened hphase hcreate =>
    rw [hphase] at h
    cases h with
    | opening hgives hpersists =>
      exact ⟨[], some [], rfl, .filling _ hgives hpersists, .opened hcreate⟩
  | unopened hphase =>
    rw [hphase] at h
    cases h with
    | opening hgives hpersists => exact ⟨[], none, rfl, .unwritten 1 _ hgives hpersists, .none⟩
  | @filled text file hphase =>
    obtain rfl := hfile file (by rw [hphase]; rfl)
    rw [hphase] at h
    cases h with
    | filling _ hgives hpersists =>
      exact ⟨[], some text, rfl, .wrote 0 hgives hpersists, .filled text rfl⟩
  | stored hphase =>
    rw [hphase] at h
    cases h with
    | wrote _ hgives hpersists => exact ⟨[_], _, rfl, .stored hgives hpersists, .none⟩
  | refused hphase =>
    rcases hphase with hphase | hphase
    · rw [hphase] at h
      cases h with
      | making _ _ hgives hpersists => exact ⟨[_], none, rfl, .refused hgives hpersists, .none⟩
    · rw [hphase] at h
      cases h with
      | unwritten _ _ hgives hpersists => exact ⟨[_], none, rfl, .refused hgives hpersists, .none⟩

/-- One step on, if the system does not refuse. -/
theorem Along.does (allowed : Disk → Disk → Prop) {note : Option Note} {storing : Option Storing}
    (h : Along w₀ log source address (x, w, world) answers events written)
    (hdoes : Does 0 w world x note storing s') (hstep : s' = x.step w world)
    (hallowed : x.phase = .queued → allowed world.disk s'.2.2.disk) :
    ∃ events' written', Along w₀ log source address s' (answers ++ (taken note).toList) events'
        written' ∧
      Touches allowed w₀.artifact.path world.disk written s'.2.2.disk written' := by
  obtain ⟨⟨rfl, rfl⟩, ⟨henvironment, hartifact⟩, hlog, hstage, hfile⟩ := h
  dsimp only at henvironment hartifact hlog hstage hfile
  rw [← henvironment, ← hartifact] at hstage
  rw [← hartifact] at hfile ⊢
  obtain ⟨kinds, written', hlog', hstage', htouches⟩ :=
    hstage.does allowed hfile hdoes hstep hallowed
  have hroom := hdoes.environment
  refine ⟨events ++ kinds, written', ⟨⟨hdoes.source, hdoes.address⟩, ?_, ?_, ?_,
    fun file hopen => ?_⟩, htouches⟩
  · exact ⟨hroom.1.trans henvironment, hroom.2.trans hartifact⟩
  · rw [hlog', hlog, Log.emitAll_append]
  · rwa [← henvironment, ← hartifact]
  · rw [← hartifact, ← hroom.2]
    exact hdoes.file hopen

theorem Refuses.file?_eq {fault : DiskFault} {phase phase' : InvocationPhase}
    (h : Refuses fault phase phase') : phase'.file? = none := by
  cases h <;> rfl

/-- What was refused is not written, and nothing was before. -/
theorem Stage.refuses {persists : Bool} {path : Text} {fault : DiskFault}
    {phase phase' : InvocationPhase}
    (h : Stage persists path source address phase answers events written)
    (hrefuses : Refuses fault phase phase') :
    Stage persists path source address phase' answers events none := by
  cases hrefuses with
  | making =>
    cases h with
    | making _ _ hgives hpersists => exact .making _ _ hgives hpersists
  | opening =>
    cases h with
    | filling _ hgives hpersists => exact .unwritten _ _ hgives hpersists
  | writing =>
    cases h with
    | wrote _ hgives hpersists => exact .unwritten _ _ hgives hpersists
    | unwritten _ _ hgives hpersists => exact .unwritten _ _ hgives hpersists

theorem Stage.unwritten_of_refuses {persists : Bool} {path : Text} {fault : DiskFault}
    {phase : InvocationPhase}
    (h : Stage persists path source address x.phase answers events written)
    (hready : (x.standing : StyleBatch.Standing Unit) = .ready)
    (hrefuses : Refuses fault (x.step w world).1.phase phase) : written = none := by
  obtain ⟨source, address, phase⟩ := x
  cases h with
  | wrote pauses =>
    -- the text is there already, and the next step says so
    cases pauses with
    | zero => cases hrefuses
    | succ pauses => cases hready
  | filling | stored => cases hready
  | _ => rfl

theorem result_of_ready (hready : (x.standing : StyleBatch.Standing Unit) = .ready) :
    x.result? = none := by
  obtain ⟨source, address, phase⟩ := x
  cases phase with
  | settled => cases hready
  | _ => rfl

/-- One step on. -/
theorem Along.move (h : Along w₀ log source address s answers events written)
    (hmove : Moves allowed s s') :
    ∃ events' written',
      Along w₀ log source address s' (answers ++ (answer? s).toList) events' written' ∧
      Touches allowed w₀.artifact.path s.2.2.disk written s'.2.2.disk written' := by
  cases hmove with
  | step hnone hallowed => exact h.does allowed (does_step 0 _ _ _ hnone) rfl hallowed
  | @refused x w world fault phase disk hready hrefuses hallowed =>
    have hnone := result_of_ready hready
    have hunwritten := h.stage.unwritten_of_refuses hready hrefuses
    obtain ⟨events', written', halong, -⟩ := h.does (fun _ _ => True)
      (does_step 0 _ _ _ hnone) rfl (fun _ => trivial)
    have hclosed := hrefuses.file?_eq
    refine ⟨events', none, ⟨h.subject, halong.workshop, halong.log, halong.stage.refuses hrefuses,
      fun file hopen => ?_⟩, ?_⟩
    · rw [hclosed] at hopen
      cases hopen
    · rw [hunwritten]
      exact .allowed hallowed

theorem Touches.holds {path : Text} {before disk disk' : Disk} {held : Option Bytes}
    {written' : Option Text} (h : Touches allowed path disk written disk' written')
    (hspares : ∀ disk disk', allowed disk disk' → Disk.Spares path disk disk')
    (hnull : Disk.target before path ≠ Disk.nullDevice)
    (hholds : Disk.Holds path before ((written.map Utf8.encode).or held) disk) :
    Disk.Holds path before ((written'.map Utf8.encode).or held) disk' := by
  cases h with
  | none => exact hholds
  | allowed hallowed => exact hholds.spares (hspares _ _ hallowed)
  | made hmade => exact hholds.spares (Disk.spares_makePath hmade)
  | opened hcreate => exact hholds.write hnull (Disk.create_eq_ok_iff.mp hcreate).2
  | filled text hwritten =>
    rw [hwritten] at hholds
    rw [hholds.target_eq]
    exact hholds.overwrite hnull _

/-- A text that does not get into the open file is not written. -/
theorem Along.unfilled {file : List Text} (fault : DiskFault) (disk : Disk)
    (h : Along w₀ log source address (x, w, world) answers events written)
    (hphase : x.phase = .filling text file) :
    Along w₀ log source address
      ({ x with phase := .writing 0 text (.error fault) }, w, { world with disk }) answers events
      none := by
  obtain ⟨hsubject, hworkshop, hlog, hstage, -⟩ := h
  refine ⟨hsubject, hworkshop, hlog, ?_, fun file hopen => by cases hopen⟩
  rw [hphase] at hstage
  cases hstage with
  | filling _ hgives hpersists => exact .unwritten 0 fault hgives hpersists

/-- Along a call, the events and the write go with the phase, and the artifact's file holds what
was written. -/
theorem Runs.along {n : Nat} (h : Runs allowed (⟨source, address, .queued⟩, w, world) n answers s) :
    ∃ events written, Along w world.log source address s answers events written ∧
      ∀ before held, (∀ disk disk', allowed disk disk' → Disk.Spares w.artifact.path disk disk') →
        Disk.target before w.artifact.path ≠ Disk.nullDevice →
        Disk.Holds w.artifact.path before held world.disk →
        Disk.Holds w.artifact.path before ((written.map Utf8.encode).or held) s.2.2.disk := by
  induction h with
  | refl =>
    exact ⟨[], none, ⟨⟨rfl, rfl⟩, ⟨rfl, rfl⟩, rfl, .queued, fun _ hopen => by cases hopen⟩,
      fun _ _ _ _ hheld => hheld⟩
  | move _ hmove ih =>
    obtain ⟨events, written, halong, hholds⟩ := ih
    obtain ⟨events', written', halong', htouches⟩ := halong.move hmove
    exact ⟨events', written', halong', fun before held hspares hnull hheld =>
      htouches.holds hspares hnull (hholds before held hspares hnull hheld)⟩
  | @unfilled n answers x w world text file disk fault _ hphase hallowed ih =>
    obtain ⟨events, written, halong, -⟩ := ih
    exact ⟨events, none, halong.unfilled fault disk hphase, fun before held hspares _ hheld =>
      hheld.spares (hspares _ _ hallowed)⟩

/-! ## How long a call takes -/

/-- The steps that are still to come, once the compiler was called. -/
def work : InvocationPhase → Nat
  | .queued => 0
  | .compiling call => call.pauses + 6
  | .makingDirectory pauses .. => pauses + 4
  | .opening _ => 3
  | .filling .. => 2
  | .writing pauses .. => pauses + 1
  | .settled _ => 0

theorem work_of_waits {phase phase' : InvocationPhase} (h : Waits phase phase') :
    work phase' < work phase ∧ phase' ≠ .queued := by
  cases h with
  | compiling call pauses hpauses =>
    refine ⟨?_, InvocationPhase.noConfusion⟩
    simp only [work, hpauses]
    omega
  | makingDirectory | writing => exact ⟨Nat.lt_succ_self _, InvocationPhase.noConfusion⟩

/-- There is less to do after each step. -/
theorem work_of_step (w : Workshop) (world : World) (hnone : x.result? = none)
    (hcalled : x.phase ≠ .queued) :
    work (x.step w world).1.phase < work x.phase ∧ (x.step w world).1.phase ≠ .queued := by
  have hdoes := does_step 0 w world x hnone
  generalize x.step w world = s' at hdoes
  generalize x.note 0 w = note at hdoes
  generalize x.storing 0 w world = storing at hdoes
  cases hdoes with
  | waited hwaits => exact work_of_waits hwaits
  | called hphase => exact absurd hphase hcalled
  | @beganMaking call _ _ _ _ hphase =>
    have hless : 5 < call.pauses + 6 := by omega
    rw [hphase]
    exact ⟨hless, InvocationPhase.noConfusion⟩
  | @beganWriting call _ hphase =>
    have hless : 3 < call.pauses + 6 := by omega
    rw [hphase]
    exact ⟨hless, InvocationPhase.noConfusion⟩
  | made hphase | opened hphase | unopened hphase | filled hphase =>
    rw [hphase]
    exact ⟨Nat.lt_succ_self _, InvocationPhase.noConfusion⟩
  | failed hphase | kept hphase | stored hphase =>
    rw [hphase]
    exact ⟨Nat.succ_pos _, InvocationPhase.noConfusion⟩
  | refused hphase =>
    rcases hphase with hphase | hphase
    · rw [hphase]
      exact ⟨Nat.succ_pos _, InvocationPhase.noConfusion⟩
    · rw [hphase]
      exact ⟨Nat.succ_pos _, InvocationPhase.noConfusion⟩

theorem work_of_move (hmove : Moves allowed s s') (hcalled : s.1.phase ≠ .queued) :
    work s'.1.phase < work s.1.phase ∧ s'.1.phase ≠ .queued := by
  cases hmove with
  | step hnone => exact work_of_step _ _ hnone hcalled
  | @refused x w world fault phase disk hready hrefuses =>
    have hnone : x.result? = none := result_of_ready hready
    obtain ⟨hwork, -⟩ := work_of_step w world hnone hcalled
    generalize (x.step w world).1.phase = phase' at hrefuses hwork
    cases hrefuses <;> exact ⟨hwork, InvocationPhase.noConfusion⟩

/-- The steps that a call can take at most, by the pauses of the compiler. -/
def limit (w : Workshop) (world : World) (source : Text) : Nat :=
  (w.compiler.call source world.disk).2.1.pauses + 7

/-- A call does not go on for ever, whatever is refused. -/
theorem Runs.steps_le {n : Nat}
    (h : Runs allowed (⟨source, address, .queued⟩, w, world) n answers s) :
    n ≤ limit w world source := by
  have hrun : (n = 0 ∧ s = (⟨source, address, .queued⟩, w, world)) ∨
      (s.1.phase ≠ .queued ∧ n + work s.1.phase ≤ limit w world source) := by
    induction h with
    | refl => exact .inl ⟨rfl, rfl⟩
    | @move n answers s' s'' hrun hmove ih =>
      rcases ih with ⟨rfl, rfl⟩ | ⟨hcalled, hn⟩
      · right
        cases hmove with
        | step => exact ⟨InvocationPhase.noConfusion, (Nat.add_comm 1 _).le⟩
        | refused _ hrefuses => cases hrefuses
      · obtain ⟨hwork, hcalled⟩ := work_of_move hmove hcalled
        exact .inr ⟨hcalled, by omega⟩
    | @unfilled n answers x w world text file disk fault _ hphase _ ih =>
      rcases ih with ⟨-, hstart⟩ | ⟨-, hn⟩
      · cases hstart
        cases hphase
      · have hwork : work x.phase = 2 := by rw [hphase]; rfl
        refine .inr ⟨InvocationPhase.noConfusion, ?_⟩
        change n + 1 + (0 + 1) ≤ limit _ _ source
        dsimp only at hn
        omega
  rcases hrun with ⟨rfl, -⟩ | ⟨-, hn⟩
  · exact Nat.zero_le _
  · omega

def advance (s : Invocation × Workshop × World) : Invocation × Workshop × World :=
  s.1.step s.2.1 s.2.2

/-- A call returns. -/
theorem exists_result (s : Invocation × Workshop × World) :
    ∃ n, ((advance^[n]) s).1.result?.isSome := by
  have hcalled : ∀ k s, work s.1.phase ≤ k → s.1.phase ≠ .queued →
      ∃ n, ((advance^[n]) s).1.result?.isSome := by
    intro k
    induction k with
    | zero =>
      rintro ⟨⟨source, address, phase⟩, w, world⟩ hwork hphase
      cases phase with
      | queued => exact absurd rfl hphase
      | settled => exact ⟨0, rfl⟩
      | compiling | makingDirectory | opening | filling | writing =>
        simp only [work] at hwork
        omega
    | succ k ih =>
      intro s hwork hphase
      cases hresult : s.1.result? with
      | some => exact ⟨0, by rw [Function.iterate_zero, id, hresult]; rfl⟩
      | none =>
        obtain ⟨hless, hphase⟩ := work_of_step s.2.1 s.2.2 hresult hphase
        obtain ⟨n, hn⟩ := ih (advance s) (by rw [advance]; omega) hphase
        exact ⟨n + 1, hn⟩
  by_cases hphase : s.1.phase = .queued
  · obtain ⟨⟨source, address, phase⟩, w, world⟩ := s
    obtain rfl : phase = .queued := hphase
    obtain ⟨n, hn⟩ := hcalled _ (advance (⟨source, address, .queued⟩, w, world)) le_rfl
      InvocationPhase.noConfusion
    exact ⟨n + 1, hn⟩
  · exact hcalled _ s le_rfl hphase

end Step

/-! ## Calls one after the other -/

/-- What is known of a call in a workshop.  The compiler has answered once, and its text was
returned exactly if it ran with a status not above zero.  A failure was told, with the source and
the address, and nothing else; a success was told, and, where the environment persists, once more
what became of the artifact. -/
structure Completed.Told (c : Completed) (w : Workshop) : Prop where
  answered : ∃ answer, c.answers = [answer] ∧ (∀ text, c.result = some text ↔ Gives answer text) ∧
    (c.result = none → c.events =
      [.compileFailed c.address (verdict answer).status (verdict answer).message c.source])
  succeeded : ∀ text, c.result = some text → ∃ more, c.events = success c.address text :: more ∧
    if w.environment.persists = true then
      more = [.artifactWritten w.artifact.path (Text.byteSize text)] ∨
        ∃ message, more = [.artifactNotWritten w.artifact.path message]
    else more = []
  log : c.after.2.log = c.before.2.log.emitAll c.events
  steps : c.steps ≤ limit c.before.1 c.before.2 c.source

section Calls

variable {allowed : Disk → Disk → Prop} {start last : Workshop × World} {calls : List Completed}
  {c : Completed} {w : Workshop}

theorem Gives.unique {answer : Except Fault Report} {text text' : Text} (h : Gives answer text)
    (h' : Gives answer text') : text = text' := by
  obtain ⟨report, rfl, -, rfl⟩ := h
  obtain ⟨report', heq, -, rfl⟩ := h'
  cases heq
  rfl

/-- A call that has returned is at one of the last stages. -/
theorem Completed.Ran.along (h : c.Ran allowed) : ∃ written,
    Stage c.before.1.environment.persists c.before.1.artifact.path c.source c.address
      (.settled c.result) c.answers c.events written ∧
    c.after.1.environment = c.before.1.environment ∧ c.after.1.artifact = c.before.1.artifact ∧
    c.after.2.log = c.before.2.log.emitAll c.events ∧
    ∀ before held,
      (∀ disk disk', allowed disk disk' → Disk.Spares c.before.1.artifact.path disk disk') →
      Disk.target before c.before.1.artifact.path ≠ Disk.nullDevice →
      Disk.Holds c.before.1.artifact.path before held c.before.2.disk →
      Disk.Holds c.before.1.artifact.path before ((written.map Utf8.encode).or held)
        c.after.2.disk := by
  obtain ⟨x, hruns, hphase⟩ := h
  obtain ⟨events, written, halong, hholds⟩ := hruns.along
  have hlog : c.after.2.log = c.before.2.log.emitAll events := halong.log
  have hevents : c.events = events := by rw [Completed.events, hlog, Log.since_emitAll]
  have hstage := halong.stage
  rw [hphase, ← hevents] at hstage
  rw [← hevents] at hlog
  exact ⟨written, hstage, halong.workshop.1, halong.workshop.2, hlog, hholds⟩

theorem Completed.Ran.told (h : c.Ran allowed)
    (hw : c.before.1.environment = w.environment ∧ c.before.1.artifact = w.artifact) :
    c.Told w := by
  obtain ⟨written, hstage, -, -, hlog, -⟩ := h.along
  obtain ⟨x, hruns, -⟩ := h
  rw [hw.1, hw.2] at hstage
  refine ⟨?_, ?_, hlog, hruns.steps_le⟩
  · generalize c.result = result at hstage
    generalize c.events = events at hstage
    generalize c.answers = answers at hstage
    cases hstage with
    | failed hnone => exact ⟨_, rfl, fun text => iff_of_false nofun (hnone text), fun _ => rfl⟩
    | kept hgives | stored hgives | refused hgives =>
      refine ⟨_, rfl, fun text => ⟨?_, fun h => congrArg some (hgives.unique h)⟩, nofun⟩
      rintro ⟨⟩
      exact hgives
  · intro text hresult
    rw [hresult] at hstage
    generalize c.events = events at hstage
    generalize c.answers = answers at hstage
    cases hstage with
    | kept _ hpersists => exact ⟨[], rfl, by rw [hpersists]; rfl⟩
    | stored _ hpersists => exact ⟨_, rfl, by rw [if_pos hpersists]; exact .inl rfl⟩
    | refused _ hpersists => exact ⟨_, rfl, by rw [if_pos hpersists]; exact .inr ⟨_, rfl⟩⟩

/-- The last stages say whether the text was written. -/
theorem Completed.written_of_stage {persists : Bool} {path : Text} {written : Option Text}
    (h : Stage persists path c.source c.address (.settled c.result) c.answers c.events written) :
    c.written = written := by
  rw [Completed.written]
  generalize c.result = result at h
  generalize c.events = events at h
  generalize c.answers = answers at h
  cases h <;> rfl

theorem lastWritten_concat (calls : List Completed) (c : Completed) :
    lastWritten (calls ++ [c]) = c.written.or (lastWritten calls) := by
  rw [lastWritten, List.filterMap_append, List.getLast?_append, lastWritten]
  cases hwritten : c.written <;> simp [hwritten]

/-- Nobody changes what the compiled texts are used for. -/
theorem OneByOne.workshop (h : OneByOne allowed start calls last) :
    last.1.environment = start.1.environment ∧ last.1.artifact = start.1.artifact := by
  induction h with
  | start => exact ⟨rfl, rfl⟩
  | call _ hran ih =>
    obtain ⟨_, -, henvironment, hartifact, -, -⟩ := hran.along
    exact ⟨henvironment.trans ih.1, hartifact.trans ih.2⟩
  | elsewhere _ _ _ _ _ ih => exact ih

theorem OneByOne.told (h : OneByOne allowed start calls last) : ∀ c ∈ calls, c.Told start.1 := by
  induction h with
  | start => exact List.forall_mem_nil _
  | call hcalls hran ih =>
    intro c hc
    rcases List.mem_append.mp hc with hc | hc
    · exact ih c hc
    · obtain rfl := List.mem_singleton.mp hc
      exact hran.told hcalls.workshop
  | elsewhere _ _ _ _ _ ih => exact ih

section Artifact

variable
  (hspares : ∀ disk disk', allowed disk disk' → Disk.Spares start.1.artifact.path disk disk')
  (hnull : Disk.target start.2.disk start.1.artifact.path ≠ Disk.nullDevice)

include hspares hnull

/-- A call leaves its text in the artifact's file, or the file as it was. -/
theorem Completed.Ran.holds (h : c.Ran allowed) (hartifact : c.before.1.artifact = start.1.artifact)
    {held : Option Bytes} {before : Disk} (hbefore : before.workingDirectory =
      start.2.disk.workingDirectory)
    (hholds : Disk.Holds start.1.artifact.path before held c.before.2.disk) :
    Disk.Holds start.1.artifact.path before ((c.written.map Utf8.encode).or held)
      c.after.2.disk := by
  obtain ⟨written, hstage, -, -, -, hran⟩ := h.along
  rw [hartifact] at hran
  rw [Completed.written_of_stage hstage]
  exact hran before held hspares (by rwa [Disk.target_congr hbefore]) hholds

theorem OneByOne.holds (h : OneByOne allowed start calls last) :
    Disk.Holds start.1.artifact.path start.2.disk ((lastWritten calls).map Utf8.encode)
      last.2.disk := by
  induction h with
  | start => exact .start _ _
  | @call calls c hcalls hran ih =>
    have hholds := hran.holds hspares hnull hcalls.workshop.2 rfl ih
    rwa [← Option.map_or, ← lastWritten_concat] at hholds
  | elsewhere _ _ _ _ hallowed ih => exact ih.spares (hspares _ _ hallowed)

theorem OneByOne.fileAt?_after (h : OneByOne allowed start calls last) : ∀ c ∈ calls,
    c.after.2.disk.fileAt? (start.2.disk.target start.1.artifact.path) =
      (c.written.map Utf8.encode).or
        (c.before.2.disk.fileAt? (start.2.disk.target start.1.artifact.path)) := by
  induction h with
  | start => exact List.forall_mem_nil _
  | @call calls c' hcalls hran ih =>
    intro c hc
    rcases List.mem_append.mp hc with hc | hc
    · exact ih c hc
    · obtain rfl := List.mem_singleton.mp hc
      have hbefore := hcalls.holds hspares hnull
      have hafter := (hran.holds hspares hnull hcalls.workshop.2 hbefore.workingDirectory
        (.start _ _)).file
      rwa [hbefore.target_eq, Option.or_none] at hafter
  | elsewhere _ _ _ _ _ ih => exact ih

end Artifact

/-- What is known of calls one after the other.  Each of them is told.  If nothing but a call of
these touches the file of the artifact, each call leaves there the text that it says it has written,
or the file as it was; so the file holds the text of the last call that says so, or what it held
before all of them.  And whenever another source is sent, its call returns. -/
theorem told_oneByOne (h : OneByOne allowed start calls last) :
    (∀ c ∈ calls, c.Told start.1) ∧
    ((∀ disk disk', allowed disk disk' → Disk.Spares start.1.artifact.path disk disk') →
      Disk.target start.2.disk start.1.artifact.path ≠ Disk.nullDevice →
      (∀ c ∈ calls,
        c.after.2.disk.fileAt? (start.2.disk.target start.1.artifact.path) =
          (c.written.map Utf8.encode).or
            (c.before.2.disk.fileAt? (start.2.disk.target start.1.artifact.path))) ∧
      last.2.disk.fileAt? (start.2.disk.target start.1.artifact.path) =
        ((lastWritten calls).map Utf8.encode).or
          (start.2.disk.fileAt? (start.2.disk.target start.1.artifact.path)) ∧
      ∀ text, lastWritten calls = some text →
        last.2.disk.read start.1.artifact.path = .ok (Utf8.encode text)) ∧
    ∀ source address, ∃ n,
      ((advance^[n]) (⟨source, address, .queued⟩, last)).1.result?.isSome := by
  refine ⟨h.told, fun hspares hnull => ?_, fun source address => exists_result _⟩
  have hholds := h.holds hspares hnull
  refine ⟨h.fileAt?_after hspares hnull, hholds.file, fun text htext => ?_⟩
  rw [htext] at hholds
  exact hholds.read

/-! ## Calls that are given -/

/-- The answers that so many steps take. -/
def answersOf (s : Invocation × Workshop × World) (k : Nat) : List (Except Fault Report) :=
  (List.range k).flatMap fun m => (answer? ((advance^[m]) s)).toList

/-- The state in which the next step was refused. -/
def refusing (fault : DiskFault) (s : Invocation × Workshop × World) :
    Invocation × Workshop × World :=
  let s' := advance s
  let phase := match s'.1.phase with
    | .makingDirectory _ text _ => .makingDirectory 1 text (.error fault)
    | .filling text _ | .writing _ text _ => .writing 1 text (.error fault)
    | phase => phase
  ({ s.1 with phase }, s'.2.1, { s'.2.2 with disk := s.2.2.disk })

/-- Steps that are not refused, with a compiler that leaves the disk alone. -/
theorem Runs.advances {s s' : Invocation × Workshop × World} {n : Nat}
    {answers : List (Except Fault Report)} (hrefl : ∀ disk, allowed disk disk)
    (h : Runs allowed s n answers s') (k : Nat)
    (hsteps : ∀ m < k, ((advance^[m]) s').1.result? = none ∧
      (((advance^[m]) s').1.phase = .queued →
        (advance ((advance^[m]) s')).2.2.disk = ((advance^[m]) s').2.2.disk)) :
    Runs allowed s (n + k) (answers ++ answersOf s' k) ((advance^[k]) s') := by
  induction k with
  | zero =>
    rw [answersOf, List.range_zero, List.flatMap_nil, List.append_nil]
    exact h
  | succ k ih =>
    have hprior := ih fun m hm => hsteps m (by omega)
    obtain ⟨hnone, hdisk⟩ := hsteps k (by omega)
    rw [answersOf, List.range_succ, List.flatMap_append, List.flatMap_singleton,
      ← List.append_assoc, Function.iterate_succ_apply']
    refine hprior.move (.step hnone fun hqueued => ?_)
    have hsame := hdisk hqueued
    rw [advance] at hsame
    rw [hsame]
    exact hrefl _

/-- A process that keeps the artifact, with a compiler that gives the replies. -/
def replying (replies : List ScriptedReply) : Workshop × World :=
  (⟨⟨.scripted replies, []⟩, .authoritativeProcess, {}⟩, ⟨.empty, []⟩)

end Calls

namespace Given

def start : Workshop × World :=
  replying [⟨0, .ok (0, [], some "one")⟩, ⟨2, .ok (0, [], some "two")⟩, ⟨0, .ok (2, "no", none)⟩]

def stored : Completed :=
  let s := (⟨"a", "s/x", .queued⟩, start)
  ⟨"a", "s/x", start, 0 + 7, answersOf s 7, some "one", ((advance^[7]) s).2⟩

/-- What a call that is not to write comes to, when the system refuses that. -/
def refused : Invocation × Workshop × World :=
  refusing .notPermitted ((advance^[6]) (⟨"b", "s/y", .queued⟩, stored.after))

def unwritten : Completed :=
  let s := (⟨"b", "s/y", .queued⟩, stored.after)
  ⟨"b", "s/y", stored.after, 0 + 6 + 1 + 2,
    answersOf s 6 ++ (answer? ((advance^[6]) s)).toList ++ answersOf refused 2, some "two",
    ((advance^[2]) refused).2⟩

def failed : Completed :=
  let s := (⟨"c", "s/z", .queued⟩, unwritten.after)
  ⟨"c", "s/z", unwritten.after, 0 + 2, answersOf s 2, none, ((advance^[2]) s).2⟩

theorem oneByOne : OneByOne (Disk.Spares start.1.artifact.path) start [stored, unwritten, failed]
    failed.after := by
  have hrefl := Disk.Spares.refl start.1.artifact.path
  have hstored : stored.Ran (Disk.Spares start.1.artifact.path) :=
    ⟨_, Runs.advances hrefl .refl 7 (by decide +kernel), by decide +kernel⟩
  have hbefore := Runs.advances (s := (⟨"b", "s/y", .queued⟩, stored.after)) hrefl .refl 6
    (by decide +kernel)
  have hrefused : Moves (Disk.Spares start.1.artifact.path)
      ((advance^[6]) (⟨"b", "s/y", .queued⟩, stored.after)) refused :=
    .refused (by decide +kernel) (.opening _ _) (hrefl _)
  have hunwritten : unwritten.Ran (Disk.Spares start.1.artifact.path) :=
    ⟨_, Runs.advances hrefl (hbefore.move hrefused) 2 (by decide +kernel), by decide +kernel⟩
  have hfailed : failed.Ran (Disk.Spares start.1.artifact.path) :=
    ⟨_, Runs.advances hrefl .refl 2 (by decide +kernel), by decide +kernel⟩
  exact .call (.call (.call .start hstored) hunwritten) hfailed

end Given

/-- Of three calls the first one writes, the second one cannot, and the third one fails. -/
theorem told_oneByOne_given :
    OneByOne (Disk.Spares Given.start.1.artifact.path) Given.start
      [Given.stored, Given.unwritten, Given.failed] Given.failed.after ∧
    Given.unwritten.events.length = 2 ∧ Given.failed.result = none ∧
    Given.failed.after.2.disk.read "src/css/dev/dev-css.css" = .ok (Utf8.encode "one") := by
  obtain ⟨htold, hartifact, -⟩ := told_oneByOne Given.oneByOne
  obtain ⟨-, -, hread⟩ := hartifact (fun _ _ h => h) (by decide +kernel)
  obtain ⟨more, hevents, hmore⟩ := (htold Given.unwritten (by simp)).succeeded "two" rfl
  have hpersists : Given.start.1.environment.persists = true := rfl
  rw [if_pos hpersists] at hmore
  refine ⟨Given.oneByOne, ?_, rfl, hread "one" (by decide +kernel)⟩
  rcases hmore with rfl | ⟨message, rfl⟩
  · rw [hevents]
    rfl
  · rw [hevents]
    rfl

end Invocation

end StyleBatch
