import StyleBatch.Proofs.Pipeline.Link

/-!
# Runs as lists of acts

A run is a list of acts: loads are submitted, tasks are stepped, and others change the disk and the
compiler.  What was noted on the way, and what has become of the artifact, is read off the list.

* `Run`: only tasks that can move are stepped; any of them, in any order.
* `Polled`: a poll drives a task as far as it goes, so nothing comes between the steps of one poll.
* `Run.reached`: what is known of all states that come about is known of these.
* `polled_of_start`: runs that are given, and checked by evaluation.
-/

namespace StyleBatch

/-- What has become of the artifact with the text that the load numbered `i` had compiled. -/
inductive Storing where
  | written (i : Nat) (text : Text)
  /-- The write, or making its directory, has failed. -/
  | refused (i : Nat) (text : Text)
deriving DecidableEq

def Storing.subject : Storing → Nat
  | .written i _ => i
  | .refused i _ => i

/-- What becomes of the artifact when an invocation comes into a phase. -/
def Invocation.stored? (i : Nat) : InvocationPhase → Option Storing
  | .writing _ text (.ok _) => some (.written i text)
  | _ => none

/-- What a step of an invocation does to the artifact. -/
def Invocation.storing (i : Nat) (w : Workshop) (world : World) (x : Invocation) : Option Storing :=
  match x.phase with
  | .makingDirectory 0 text (.error _) => some (.refused i text)
  | .writing 0 text (.error _) => some (.refused i text)
  | .writing .. => none
  | _ => stored? i (x.step w world).1.phase

def Departure.storing (i : Nat) (b : Batching) (world : World) (d : Departure) : Option Storing :=
  match d.phase with
  | .compiling x => x.storing i b.workshop world
  | _ => none

namespace Pipeline

/-- What a step of a task does to the artifact. -/
def storing (p : Pipeline) : Task → Option Storing
  | .job i => p.jobs[i]?.bind fun job =>
    match job.phase with
    | .leaving d => d.storing i p.batching p.resolution.world
    | _ => none
  | .resolution _ => none

inductive Act where
  | submit (mode : Mode) (load : Load) (delay : Nat)
  | step (task : Task)
  | elsewhere (disk : Disk) (kind : CompilerKind)

namespace Act

def apply (act : Act) (p : Pipeline) : Pipeline :=
  match act with
  | .submit mode load delay => Pipeline.submit mode load delay p
  | .step task => Pipeline.step task p
  | .elsewhere disk kind => p.elsewhere disk kind

/-- What is read off the state in which a task is stepped. -/
def read {β : Type} (f : Pipeline → Task → Option β) (act : Act) (p : Pipeline) : List β :=
  match act with
  | .step task => (f p task).toList
  | _ => []

/-- Only tasks that can move are stepped. -/
def Possible (act : Act) (p : Pipeline) : Prop :=
  match act with
  | .step task => CanStep p task
  | _ => True

instance (act : Act) (p : Pipeline) : Decidable (act.Possible p) :=
  match act with
  | .step task => inferInstanceAs (Decidable (standing p task = .ready ∨ standing p task = .asleep))
  | .submit .. | .elsewhere .. => .isTrue trivial

/-- The task that goes on being polled after the act. -/
def turn (act : Act) (p : Pipeline) : Option Task :=
  match act with
  | .step task =>
    if standing p task = .ready ∧
        (standing (Pipeline.step task p) task = .ready ∨
          standing (Pipeline.step task p) task = .asleep)
      then some task else none
  | _ => none

end Act

/-- What is read off the steps from a state on. -/
def gather {β : Type} (f : Pipeline → Task → Option β) : Pipeline → List Act → List β
  | _, [] => []
  | p, act :: acts => act.read f p ++ gather f (act.apply p) acts

namespace Setup

variable (setup : Setup) (acts more : List Act) (act : Act)

/-- The state after the acts. -/
def after : Pipeline :=
  acts.foldl (fun p act => act.apply p) setup.start

def notes : List Note :=
  gather note setup.start acts

def storings : List Storing :=
  gather storing setup.start acts

end Setup

/-- The loads that are submitted. -/
def submissions (acts : List Act) : List Load :=
  acts.filterMap fun
    | .submit _ load _ => some load
    | _ => none

/-- Acts that can come one after the other. -/
inductive Run (setup : Setup) : List Act → Prop
  | start : Run setup []
  | act {acts : List Act} {act : Act} : Run setup acts → act.Possible (setup.after acts) →
      Run setup (acts ++ [act])

/-- Runs in which no poll is interrupted; the second argument is the task that is being polled. -/
inductive Polled (setup : Setup) : List Act → Option Task → Prop
  | start : Polled setup [] none
  | act {acts : List Act} {turn : Option Task} {act : Act} : Polled setup acts turn →
      act.Possible (setup.after acts) → (∀ task, turn = some task → act = .step task) →
      Polled setup (acts ++ [act]) (act.turn (setup.after acts))

/-! ## One act more -/

section Append

variable (setup : Setup) (acts more : List Act) (act : Act)

theorem gather_append {β : Type} (f : Pipeline → Task → Option β) (p : Pipeline) :
    gather f p (acts ++ more) =
      gather f p acts ++ gather f (acts.foldl (fun p act => act.apply p) p) more := by
  induction acts generalizing p with
  | nil => rfl
  | cons act acts ih => rw [List.cons_append, gather, gather, ih, List.append_assoc, List.foldl_cons]

theorem after_append : setup.after (acts ++ more) =
    more.foldl (fun p act => act.apply p) (setup.after acts) :=
  List.foldl_append

theorem after_concat : setup.after (acts ++ [act]) = act.apply (setup.after acts) :=
  after_append ..

theorem notes_append : setup.notes (acts ++ more) =
    setup.notes acts ++ gather note (setup.after acts) more :=
  gather_append ..

theorem storings_append : setup.storings (acts ++ more) =
    setup.storings acts ++ gather storing (setup.after acts) more :=
  gather_append ..

theorem notes_concat : setup.notes (acts ++ [act]) =
    setup.notes acts ++ act.read note (setup.after acts) := by
  rw [notes_append, gather, gather, List.append_nil]

theorem storings_concat : setup.storings (acts ++ [act]) =
    setup.storings acts ++ act.read storing (setup.after acts) := by
  rw [storings_append, gather, gather, List.append_nil]

theorem submissions_append : submissions (acts ++ more) = submissions acts ++ submissions more :=
  List.filterMap_append

end Append

section

variable {setup : Setup} {acts more : List Act} {turn : Option Task}

theorem Polled.run (h : Polled setup acts turn) : Run setup acts := by
  induction h with
  | start => exact .start
  | act _ hpossible _ ih => exact ih.act hpossible

theorem Run.of_concat {act : Act} (h : Run setup (acts ++ [act])) :
    Run setup acts ∧ act.Possible (setup.after acts) := by
  generalize heq : acts ++ [act] = all at h
  cases h with
  | start => simp at heq
  | act h hpossible =>
    obtain ⟨rfl, hact⟩ := List.append_inj' heq rfl
    cases hact
    exact ⟨h, hpossible⟩

theorem Run.of_append (h : Run setup (acts ++ more)) : Run setup acts := by
  induction more using List.reverseRecOn with
  | nil => rwa [List.append_nil] at h
  | append_singleton more act ih =>
    rw [← List.append_assoc] at h
    exact ih h.of_concat.1

theorem Run.of_prefix {before : List Act} (h : Run setup acts) (hbefore : before <+: acts) :
    Run setup before := by
  obtain ⟨more, rfl⟩ := hbefore
  exact h.of_append

theorem run_of_possible
    (h : ∀ before act, before ++ [act] <+: acts → act.Possible (setup.after before)) :
    Run setup acts := by
  induction acts using List.reverseRecOn with
  | nil => exact .start
  | append_singleton acts act ih =>
    refine (ih fun before act' hbefore => ?_).act (h acts act List.prefix_rfl)
    exact h before act' (hbefore.trans (List.prefix_append ..))

/-- The states of a run come about. -/
theorem Run.reached (h : Run setup acts) :
    Reached setup (fun _ => True) (submissions acts) (setup.notes acts) (setup.after acts) := by
  induction h with
  | start => exact .start
  | @act acts act _ hpossible ih =>
    rw [after_concat, notes_concat, submissions_append]
    cases act with
    | submit mode load delay =>
      simp only [Act.read, List.append_nil]
      exact ih.submit mode load delay
    | step task =>
      have hnone : submissions [.step task] = [] := rfl
      rw [hnone, List.append_nil]
      exact ih.poll hpossible trivial
    | elsewhere disk kind =>
      have hnone : submissions [.elsewhere disk kind] = [] := rfl
      simp only [Act.read, hnone, List.append_nil]
      exact ih.elsewhere disk kind trivial

end

/-! ## Runs that are given -/

/-- The acts that come after a state leave no poll unfinished and interrupt none. -/
def polls : Pipeline → Option Task → List Act → Bool
  | _, turn, [] => turn.isNone
  | p, turn, act :: acts =>
    (match act with
    | .step task => (turn.isNone || turn == some task) &&
      (standing p task == .ready || standing p task == .asleep)
    | _ => turn.isNone) &&
    polls (act.apply p) (act.turn p) acts

theorem polled_of_polls {setup : Setup} {acts more : List Act} {turn : Option Task}
    (h : Polled setup acts turn) (hpolls : polls (setup.after acts) turn more = true) :
    Polled setup (acts ++ more) none := by
  induction more generalizing acts turn with
  | nil =>
    rw [List.append_nil]
    rw [polls, Option.isNone_iff_eq_none] at hpolls
    exact hpolls ▸ h
  | cons act more ih =>
    rw [List.append_cons]
    cases act with
    | step task =>
      simp only [polls, Bool.and_eq_true, Bool.or_eq_true, beq_iff_eq, Option.isNone_iff_eq_none]
        at hpolls
      obtain ⟨⟨hturn, hcan⟩, hmore⟩ := hpolls
      rw [← after_concat] at hmore
      refine ih (h.act hcan ?_) hmore
      rintro task' rfl
      simpa [eq_comm] using hturn
    | submit mode load delay =>
      simp only [polls, Bool.and_eq_true, Option.isNone_iff_eq_none] at hpolls
      obtain ⟨hturn, hmore⟩ := hpolls
      rw [← after_concat] at hmore
      exact ih (h.act trivial (hturn ▸ nofun)) hmore
    | elsewhere disk kind =>
      simp only [polls, Bool.and_eq_true, Option.isNone_iff_eq_none] at hpolls
      obtain ⟨hturn, hmore⟩ := hpolls
      rw [← after_concat] at hmore
      exact ih (h.act trivial (hturn ▸ nofun)) hmore

theorem polled_of_start {setup : Setup} {acts : List Act}
    (h : polls setup.start none acts = true) : Polled setup acts none :=
  polled_of_polls .start h

/-- Steps that are written down. -/
def traced : Machine (List Task × Pipeline) Task where
  standing run task := standing run.2 task
  step task run := (run.1 ++ [task], step task run.2)

/-- Loads are submitted together, with their delays, and swept until nothing moves, in at most
`fuel` rounds of that depth. -/
def together (setup : Setup) (loads : List (Load × Nat)) (fuel : Nat) : List Act :=
  let submitted := loads.map fun (load, delay) => .submit .translate load delay
  let steps := (traced.settle fuel (.resolution .disk :: (List.range loads.length).map Task.job) fuel
    ([], setup.after submitted)).1
  submitted ++ steps.map Act.step

end Pipeline

end StyleBatch
