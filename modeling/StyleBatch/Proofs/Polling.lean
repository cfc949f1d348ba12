import StyleBatch.Schedule

/-!
# What a poll steps

A poll steps tasks that can move: the task itself and what it waits for, directly or by way of
others, and no other task.  It goes on as long as the task is ready, and a step that finds the
task asleep is the last one.  `m.Reaches S s s'` says that steps of tasks in `S` lead from `s` to
`s'`, each of them a step of a task that can move.

* `Machine.poll_reaches`, `Machine.settle_reaches`: a poll, and sweeping until nothing moves, are
  such steps.  What these steps keep they keep (`Machine.poll_keeps_within`, `Machine.poll_keeps`,
  `Machine.settle_keeps`).
* `Machine.poll_ends`: a poll ends as it went on, or with a step that finds the task asleep.
* `Machine.settle_keeps_after_sweep`: what holds after the first sweep and is kept, holds at the end.
-/

namespace StyleBatch.Machine

variable {σ α : Type} (m : Machine σ α)

/-- A task that a poll steps. -/
def CanStep (s : σ) (a : α) : Prop :=
  m.standing s a = .ready ∨ m.standing s a = .asleep

/-- These tasks wait for each other only. -/
def Closed (S : α → Prop) : Prop :=
  ∀ s a on, S a → m.standing s a = .waiting on → ∀ b ∈ on, S b

/-- The states that come about from a state by steps of some tasks that can move. -/
inductive Reaches (S : α → Prop) (s : σ) : σ → Prop
  | refl : Reaches S s s
  | step {s' : σ} {a : α} : Reaches S s s' → S a → m.CanStep s' a → Reaches S s (m.step a s')

variable {m} {P Q : σ → Prop} {S : α → Prop} {s s' s'' : σ}

theorem Reaches.trans (h : m.Reaches S s s') (h' : m.Reaches S s' s'') : m.Reaches S s s'' := by
  induction h' with
  | refl => exact h
  | step _ ha hcan ih => exact ih.step ha hcan

/-- What the steps of the tasks keep, holds of every state that comes about. -/
theorem Reaches.keeps (h : m.Reaches S s s')
    (hstep : ∀ s a, P s → S a → m.CanStep s a → P (m.step a s)) (hs : P s) : P s' := by
  induction h with
  | refl => exact hs
  | step _ ha hcan ih => exact hstep _ _ ih ha hcan

/-- If polling each of some tasks makes such steps only, so does polling all of them. -/
theorem Reaches.foldl {f : Turn σ α → α → Turn σ α} (on : List α)
    (hf : ∀ t, ∀ b ∈ on, m.Reaches S t.state (f t b).state) (t : Turn σ α) :
    m.Reaches S t.state (on.foldl f t).state := by
  induction on generalizing t with
  | nil => exact .refl
  | cons b on ih =>
    exact (hf t b List.mem_cons_self).trans
      (ih (fun t b hb => hf t b (List.mem_cons_of_mem _ hb)) (f t b))

theorem closed_all (m : Machine σ α) : m.Closed fun _ => True :=
  fun _ _ _ _ _ _ _ => trivial

variable [DecidableEq α]

theorem poll_of_ready {a : α} {t : Turn σ α} (h : m.standing t.state a = .ready) (fuel : Nat)
    (busy : List α) : m.poll (fuel + 1) busy a t = m.poll fuel busy a (m.advance a t) := by
  rw [poll, h]

/-- So does polling those that are not being polled already. -/
theorem Reaches.pollIdle {fuel : Nat} (busy on : List α)
    (h : ∀ t, ∀ b ∈ on, m.Reaches S t.state (m.poll fuel (b :: busy) b t).state) (t : Turn σ α) :
    m.Reaches S t.state
      (on.foldl (fun t b => if b ∈ busy then t else m.poll fuel (b :: busy) b t) t).state := by
  refine Reaches.foldl on (fun t b hb => ?_) t
  split
  · exact .refl
  · exact h t b hb

/-- A poll of one of some tasks steps these tasks only, and only such that can move. -/
theorem poll_reaches (hclosed : m.Closed S) (fuel : Nat) (busy : List α) {a : α} (ha : S a)
    (t : Turn σ α) : m.Reaches S t.state (m.poll fuel busy a t).state := by
  induction fuel generalizing busy a t with
  | zero => exact .refl
  | succ fuel ih =>
    rw [poll]
    split
    · exact .refl
    · rename_i hasleep
      exact .step .refl ha (Or.inr hasleep)
    · rename_i hready
      exact (Reaches.refl.step ha (Or.inl hready)).trans (ih busy ha (m.advance a t))
    · rename_i on hwaits
      have hon := Reaches.pollIdle busy on
        (fun t b hb => ih (b :: busy) (hclosed _ _ _ ha hwaits b hb) t) t
      dsimp only
      split
      · exact hon
      · exact hon.trans (ih busy ha _)

theorem sweep_reaches (fuel : Nat) (roots : List α) (s : σ) :
    m.Reaches (fun _ => True) s (m.sweep fuel roots s).state :=
  Reaches.foldl roots (fun t b _ => poll_reaches m.closed_all fuel [b] trivial t) ⟨s, []⟩

/-- Sweeping until nothing moves only steps tasks that can move. -/
theorem settle_reaches (fuel : Nat) (roots : List α) (rounds : Nat) (s : σ) :
    m.Reaches (fun _ => True) s (m.settle fuel roots rounds s) := by
  induction rounds generalizing s with
  | zero => exact .refl
  | succ rounds ih =>
    rw [settle]
    split
    · exact sweep_reaches fuel roots s
    · exact (sweep_reaches fuel roots s).trans (ih _)

/-- What the steps of some tasks keep, a poll of one of them keeps. -/
theorem poll_keeps_within (hclosed : m.Closed S)
    (hstep : ∀ s a, P s → S a → m.CanStep s a → P (m.step a s)) (fuel : Nat) (busy : List α) {a : α}
    (ha : S a) (t : Turn σ α) (h : P t.state) : P (m.poll fuel busy a t).state :=
  (poll_reaches hclosed fuel busy ha t).keeps hstep h

/-- What steps of tasks that can move keep, a poll keeps. -/
theorem poll_keeps (hstep : ∀ s a, P s → m.CanStep s a → P (m.step a s)) (fuel : Nat)
    (busy : List α) (a : α) (t : Turn σ α) (h : P t.state) : P (m.poll fuel busy a t).state :=
  poll_keeps_within m.closed_all (fun s a hs _ => hstep s a hs) fuel busy trivial t h

/-- What steps of tasks that can move keep, sweeping until nothing moves keeps. -/
theorem settle_keeps (hstep : ∀ s a, P s → m.CanStep s a → P (m.step a s)) (fuel : Nat)
    (roots : List α) (rounds : Nat) (s : σ) (h : P s) : P (m.settle fuel roots rounds s) :=
  (settle_reaches fuel roots rounds s).keeps (fun s a hs _ => hstep s a hs) h

/-- A poll of a task that waits for such tasks only.  As long as the task is ready it goes on, and it
ends so, or with a step that finds the task asleep. -/
theorem poll_ends {a : α} (hclosed : m.Closed S)
    (hothers : ∀ s b, P s → S b → m.CanStep s b → P (m.step b s))
    (hwaits : ∀ s on, m.standing s a = .waiting on → ∀ b ∈ on, S b)
    (hready : ∀ s, P s → m.standing s a = .ready → P (m.step a s))
    (hasleep : ∀ s, P s → m.standing s a = .asleep → Q (m.step a s)) (fuel : Nat) (busy : List α)
    (t : Turn σ α) (h : P t.state) :
    P (m.poll fuel busy a t).state ∨ Q (m.poll fuel busy a t).state := by
  induction fuel generalizing t with
  | zero => exact Or.inl h
  | succ fuel ih =>
    rw [poll]
    split
    · exact Or.inl h
    · rename_i hstanding
      exact Or.inr (hasleep _ h hstanding)
    · rename_i hstanding
      exact ih _ (hready _ h hstanding)
    · rename_i on hstanding
      have hon := (Reaches.pollIdle busy on (fun t b hb =>
        poll_reaches hclosed fuel (b :: busy) (hwaits _ _ hstanding b hb) t) t).keeps hothers h
      dsimp only
      split
      · exact Or.inl hon
      · exact ih _ hon

/-- What holds after the first sweep, and is kept by every step, holds when nothing moves any more. -/
theorem settle_keeps_after_sweep (hstep : ∀ s a, P s → m.CanStep s a → P (m.step a s))
    (fuel : Nat) (roots : List α) (rounds : Nat) (s : σ) (h : P (m.sweep fuel roots s).state) :
    P (m.settle fuel roots (rounds + 1) s) := by
  rw [settle]
  split
  · exact h
  · exact settle_keeps hstep _ _ _ _ h

end StyleBatch.Machine
