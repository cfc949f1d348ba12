import StyleBatch.Proofs.Resolution.Leftover
import StyleBatch.Proofs.Resolution.Onward

/-!
# Calling again on a load that has failed

A load whose inlining has ended in a fault may be called on again, any number of times, while other
loads come and go.  Where the fault is one of its own specifiers, nothing has been staged and every
call ends in the same fault.  Everywhere else a placeholder is left in its text, and once no
directive is, every call succeeds with that text.

* `Resumed`: what may come about from a resolution.
* `Spent.retried_iff`: what the calls on a load end in that nobody works on any more.
* `retried_of_fault`: what they end in after a fault.
-/

namespace StyleBatch.Resolution

/-- The states that come about from a resolution when loads are submitted and begun, any number of
times, and tasks are polled. -/
inductive Resumed (lib : Library) (r : Resolution) : Resolution → Prop
  | refl : Resumed lib r r
  | submit {r' : Resolution} (load : Load) : Resumed lib r r' → Resumed lib r (r'.addLoad load)
  | begin {r' : Resolution} (n : Nat) : Resumed lib r r' → n < r'.loads.length →
      Resumed lib r (r'.begin n)
  | poll {r' : Resolution} {task : Task} : Resumed lib r r' → CanStep r' task →
      Resumed lib r (step task r')
  | elsewhere {r' : Resolution} (world : World) : Resumed lib r r' → lib.SameOn world.disk →
      Resumed lib r { r' with world }

/-- A call on the load that was made later has ended. -/
def Retried (lib : Library) (r : Resolution) (n : Nat) (o : Outcome) : Prop :=
  ∃ r' i, Resumed lib r r' ∧ r.inlinings.length ≤ i ∧ r'.inlinings[i]? = some ⟨n, .settled o⟩

/-- What a call on a load ends in at its first poll. -/
inductive Answers (lib : Library) (load : Load) : Outcome → Prop
  | plain : Directive.scan load.text = [] → Answers lib load (.ok load.text)
  | refused {fault : Fault} : lib.imports load.address load.text = .error fault →
      Answers lib load (.error fault)

/-- Nobody works on the load any more. -/
structure Spent (n : Nat) (load : Load) (r : Resolution) : Prop where
  load : r.loads[n]? = some load
  lost : ∀ stake, (n, stake) ∈ stakes r → stake = .fault

variable {lib : Library} {loads : List Load} {r r' : Resolution} {n : Nat} {load : Load}
  {o o' : Outcome} {task : Task}

/-! ## Answers -/

theorem imports_of_scan_eq_nil {address source : Text} (h : Directive.scan source = []) :
    lib.imports address source = .ok [] := by
  rw [Library.imports, h]
  rfl

theorem Answers.eq (h : Answers lib load o) (h' : Answers lib load o') : o' = o := by
  cases h with
  | plain hscan =>
    cases h' with
    | plain => rfl
    | refused himports =>
      rw [imports_of_scan_eq_nil hscan] at himports
      cases himports
  | refused himports =>
    cases h' with
    | plain hscan =>
      rw [imports_of_scan_eq_nil hscan] at himports
      cases himports
    | refused himports' =>
      rw [himports] at himports'
      cases himports'
      rfl

/-- A load that answers at once is not staged. -/
theorem Answers.not_staged (h : Answers lib load o) (hscan : Directive.scan load.text ≠ [])
    (is : List Import) : lib.imports load.address load.text ≠ .ok is := by
  cases h with
  | plain hscan' => exact absurd hscan' hscan
  | refused himports =>
    rw [himports]
    exact nofun

/-- An inlining that waits for its first poll goes on waiting, unless it is itself written. -/
theorem queued_setInlining {r₁ : Resolution} {i i' n' : Nat} {old : InliningPhase}
    (hi : r.inlinings[i]? = some ⟨n, .queued⟩) (hsame : r₁.inlinings = r.inlinings)
    (hi' : r.inlinings[i']? = some ⟨n', old⟩) (phase : InliningPhase) :
    (r₁.setInlining i' phase).inlinings[i]? = some ⟨n, .queued⟩ ∨ n' = n ∧ old = .queued ∧
      (r₁.setInlining i' phase).inlinings[i]? = some ⟨n, phase⟩ := by
  rw [getElem?_setInlining, hsame]
  split
  · rename_i hii'
    subst hii'
    rw [hi] at hi'
    cases hi'
    exact Or.inr ⟨rfl, rfl, by rw [hi]; rfl⟩
  · exact Or.inl hi

theorem queued_setBranch {r₁ : Resolution} {i : Nat} (hi : r.inlinings[i]? = some ⟨n, .queued⟩)
    (hsame : r₁.inlinings = r.inlinings) (owner : Owner) (j : Nat) (phase : BranchPhase) :
    (r₁.setBranch owner j phase).inlinings[i]? = some ⟨n, .queued⟩ := by
  rcases setBranch_cases r₁ owner j phase with heq | ⟨i', n', bs, -, hi', heq⟩ |
    ⟨_, _, _, _, _, _, _, heq⟩
  · rw [heq, hsame, hi]
  · rw [heq]
    rw [hsame] at hi'
    -- An inlining that has branches does not wait for its first poll.
    refine (queued_setInlining hi hsame hi' _).resolve_right ?_
    rintro ⟨-, hold, -⟩
    cases hold
  · rw [heq, inlinings_setLocation, hsame, hi]

/-- An inlining that waits for its first poll goes on waiting, is answered or is staged. -/
theorem Transition.queued_cases (ht : Transition lib r task r') {i : Nat}
    (hi : r.inlinings[i]? = some ⟨n, .queued⟩) (hload : r.loads[n]? = some load) :
    r'.inlinings[i]? = some ⟨n, .queued⟩ ∨
      (∃ o, Answers lib load o ∧ r'.inlinings[i]? = some ⟨n, .settled o⟩) ∨
      Directive.scan load.text ≠ [] ∧ ∃ is, lib.imports load.address load.text = .ok is := by
  have htext : loadText r n = load.text := by rw [loadText, hload]
  cases ht with
  | @plain i' n' hi' hscan =>
    rcases queued_setInlining hi rfl hi' _ with hqueued | ⟨rfl, -, hsettled⟩
    · exact Or.inl hqueued
    · rw [htext] at hscan hsettled ⊢
      exact Or.inr (Or.inl ⟨_, .plain hscan, hsettled⟩)
  | refused hi' hload' himports =>
    rcases queued_setInlining hi rfl hi' _ with hqueued | ⟨rfl, -, hsettled⟩
    · exact Or.inl hqueued
    · rw [hload] at hload'
      cases hload'
      exact Or.inr (Or.inl ⟨_, .refused himports, hsettled⟩)
  | staged hi' hload' hscan himports =>
    rcases queued_setInlining hi (inlinings_setLoadText ..) hi' _ with hqueued | ⟨rfl, -, -⟩
    · exact Or.inl hqueued
    · rw [hload] at hload'
      cases hload'
      exact Or.inr (Or.inr ⟨hscan, _, himports⟩)
  | inlined hi' =>
    refine Or.inl ((queued_setInlining hi rfl hi' _).resolve_right ?_)
    rintro ⟨-, hold, -⟩
    cases hold
  | looped | joined => exact Or.inl (queued_setBranch hi rfl ..)
  | asked => exact Or.inl (queued_setBranch hi (inlinings_setKey ..) ..)
  | answered => exact Or.inl (queued_setBranch hi (inlinings_release ..) ..)
  | passed => exact Or.inl (by rw [inlinings_setKey, inlinings_release]; exact hi)
  | _ => exact Or.inl hi

/-! ## A load that nobody works on -/

namespace Spent

/-- Nobody begins to work on it again, unless a call on it has imports to stage. -/
theorem transition_of_not_staged (h : Spent n load r)
    (hnot : ∀ (i : Nat) (is : List Import), r.inlinings[i]? = some ⟨n, .queued⟩ →
      Directive.scan load.text ≠ [] → lib.imports load.address load.text ≠ .ok is)
    (ht : Transition lib r task r') : Spent n load r' := by
  obtain ⟨m, old, new, hstakes, hold, htrade⟩ := ht.trade
  have howed : ∀ k, (n, .owed k) ∉ old := fun k hk => nomatch h.lost _ (hold _ hk)
  have hkept : ∀ text, m ≠ n → (r.setLoadText m text).loads[n]? = some load := by
    intro text hmn
    rw [getElem?_setLoadText, if_neg hmn, h.load]
  have himports : ∀ {is : List Import} {stake : Stake}, m ≠ n →
      (n, stake) ∉ (↑(is.map fun i => (m, Stake.owed i.key)) : Multiset (Nat × Stake)) := by
    intro is stake hmn hx
    obtain ⟨i, -, heq⟩ := List.mem_map.mp (Multiset.mem_coe.mp hx)
    exact hmn (congrArg Prod.fst heq)
  -- What comes for the load is a fault, for whoever has a placeholder to lose works on another one.
  suffices hcomes : r'.loads[n]? = some load ∧ ∀ stake, (n, stake) ∈ new → stake = .fault by
    exact ⟨hcomes.1, fun stake hx => (mem_stakes hstakes hx).elim (h.lost stake) (hcomes.2 stake)⟩
  cases htrade with
  | idle hloads => exact ⟨hloads ▸ h.load, fun _ hx => absurd hx (Multiset.notMem_zero _)⟩
  | settled hloads | gathered hloads =>
    exact ⟨hloads ▸ h.load, fun _ hx => (mem_faults.mp (mem_held.mp hx).2).1⟩
  | refused _ _ _ hloads =>
    exact ⟨hloads ▸ h.load, fun _ hx => congrArg Prod.snd (Multiset.mem_singleton.mp hx)⟩
  | key hloads | location hloads =>
    have hmn : m ≠ n := by
      rintro rfl
      exact howed _ (Multiset.mem_singleton_self _)
    refine ⟨hloads ▸ h.load, fun _ hx => ?_⟩
    simp only [Multiset.insert_eq_cons, Multiset.mem_cons, Multiset.mem_singleton] at hx
    rcases hx with hx | hx <;> exact absurd (congrArg Prod.fst hx).symm hmn
  | @staged i load' is hi hload hscan himports' hloads =>
    have hmn : m ≠ n := by
      rintro rfl
      rw [h.load] at hload
      cases hload
      exact hnot i is hi hscan himports'
    exact ⟨hloads ▸ hkept _ hmn, fun _ hx => absurd hx (himports hmn)⟩
  | cleared hloads =>
    have hmn : m ≠ n := by
      rintro rfl
      exact howed _ (Multiset.mem_singleton_self _)
    exact ⟨hloads ▸ hkept _ hmn, fun _ hx => absurd hx (Multiset.notMem_zero _)⟩
  | entered _ _ _ _ hloads =>
    have hmn : m ≠ n := by
      rintro rfl
      exact howed _ (Multiset.mem_singleton_self _)
    exact ⟨hloads ▸ hkept _ hmn, fun _ hx => absurd hx (himports hmn)⟩

/-- So it is if every call on it is answered at once. -/
theorem transition (h : Spent n load r) (hanswers : Answers lib load o)
    (ht : Transition lib r task r') : Spent n load r' :=
  h.transition_of_not_staged (fun _ is _ hscan => hanswers.not_staged hscan is) ht

theorem addLoad (h : Spent n load r) (more : Load) : Spent n load (r.addLoad more) :=
  ⟨getElem?_append_of_eq_some h.load [more], h.lost⟩

theorem begin (h : Spent n load r) (m : Nat) : Spent n load (r.begin m) := by
  refine ⟨h.load, fun stake hx => h.lost stake ?_⟩
  rw [stakes_begin] at hx
  exact hx

end Spent

theorem Coherent.addLoad (h : Coherent lib r) (load : Load) : Coherent lib (r.addLoad load) :=
  { h with loads := fun x hx => (h.loads x hx).trans_le (by simp [Resolution.addLoad]) }

theorem Coherent.begin (h : Coherent lib r) (hn : n < r.loads.length) :
    Coherent lib (r.begin n) := by
  refine { h with loads := fun x hx => ?_ }
  rcases List.mem_append.mp hx with hx | hx
  · exact h.loads x hx
  · rw [List.mem_singleton.mp hx]
    exact hn

/-- After a step, a call on the load that waited or was answered still does or is. -/
theorem Spent.waits_or_answered (h : Spent n load r) (hcoherent : Coherent lib r)
    (hanswers : Answers lib load o) (hcan : CanStep r task) {i : Nat} {phase : InliningPhase}
    (hphase : (step task r).inlinings[i]? = some ⟨n, phase⟩) :
    ∃ old, r.inlinings[i]? = some ⟨n, old⟩ ∧
      (old = .queued ∨ old = .settled o → phase = .queued ∨ phase = .settled o) := by
  have honward := onward_step r task
  obtain ⟨old, hold⟩ := honward.getElem?_before hphase
  refine ⟨old, hold, ?_⟩
  rintro (rfl | rfl)
  · rcases (transition_of_canStep hcoherent hcan).queued_cases hold h.load with
      hnew | ⟨o', ho', hnew⟩ | ⟨hscan, is, himports⟩
    · rw [hphase] at hnew
      cases hnew
      exact Or.inl rfl
    · rw [hphase] at hnew
      cases hnew
      rw [hanswers.eq ho']
      exact Or.inr rfl
    · exact absurd himports (hanswers.not_staged hscan is)
  · have hnew := honward.settled i _ o hold
    rw [hphase] at hnew
    cases hnew
    exact Or.inr rfl

/-- No inlining is removed. -/
theorem Resumed.length_inlinings_le (h : Resumed lib r r') :
    r.inlinings.length ≤ r'.inlinings.length := by
  induction h with
  | refl => exact le_rfl
  | submit more _ ih => exact ih
  | begin m _ _ ih =>
    rw [Resolution.begin, List.length_append]
    omega
  | @poll r' task _ _ ih =>
    have hlength := congrArg List.length (onward_step r' task).inlinings
    rw [List.length_map, List.length_map] at hlength
    omega
  | elsewhere world _ _ ih => exact ih

/-- A load that is called on again goes on waiting or is answered. -/
theorem Resumed.answers (h : Resumed lib r r') (hcoherent : Coherent lib r)
    (hspent : Spent n load r) (hanswers : Answers lib load o) : Coherent lib r' ∧ Spent n load r' ∧
      ∀ (i : Nat) (phase : InliningPhase), r.inlinings.length ≤ i →
        r'.inlinings[i]? = some ⟨n, phase⟩ → phase = .queued ∨ phase = .settled o := by
  induction h with
  | refl =>
    refine ⟨hcoherent, hspent, fun i phase hi hphase => ?_⟩
    rw [List.getElem?_eq_none hi] at hphase
    cases hphase
  | submit more _ ih =>
    obtain ⟨hcoherent', hspent', hphases⟩ := ih
    exact ⟨hcoherent'.addLoad more, hspent'.addLoad more, hphases⟩
  | @begin r' m _ hm ih =>
    obtain ⟨hcoherent', hspent', hphases⟩ := ih
    refine ⟨hcoherent'.begin hm, hspent'.begin m, fun i phase hi hphase => ?_⟩
    rw [Resolution.begin, List.getElem?_append] at hphase
    split at hphase
    · exact hphases i phase hi hphase
    · cases List.mem_singleton.mp (List.mem_of_getElem? hphase)
      exact Or.inl rfl
  | @poll r' task _ hcan ih =>
    obtain ⟨hcoherent', hspent', hphases⟩ := ih
    have ht := transition_of_canStep hcoherent' hcan
    refine ⟨ht.coherent hcoherent', hspent'.transition hanswers ht, fun i phase hi hphase => ?_⟩
    obtain ⟨old, hold, hkept⟩ := hspent'.waits_or_answered hcoherent' hanswers hcan hphase
    exact hkept (hphases i old hi hold)
  | elsewhere world _ hsame ih =>
    obtain ⟨hcoherent', hspent', hphases⟩ := ih
    exact ⟨{ hcoherent' with same := hsame }, ⟨hspent'.load, hspent'.lost⟩, hphases⟩

/-- Whoever calls again on a load that nobody works on gets the answer, and does get it. -/
theorem Spent.retried_iff (h : Spent n load r) (hcoherent : Coherent lib r)
    (hanswers : Answers lib load o) : Retried lib r n o' ↔ o' = o := by
  constructor
  · rintro ⟨r', i, hresumed, hi, hsettled⟩
    obtain ⟨-, -, hphases⟩ := hresumed.answers hcoherent h hanswers
    rcases hphases i _ hi hsettled with hphase | hphase
    · cases hphase
    · exact InliningPhase.settled.inj hphase
  · rintro rfl
    have hn : n < r.loads.length := (List.getElem?_eq_some_iff.mp h.load).1
    have hbegun : (r.begin n).inlinings[r.inlinings.length]? = some ⟨n, .queued⟩ := by
      rw [Resolution.begin, List.getElem?_append_right le_rfl, Nat.sub_self]
      rfl
    have hcan : CanStep (r.begin n) (.source (.inlining r.inlinings.length)) := by
      refine Or.inl ?_
      simp only [machine, standing, hbegun]
    refine ⟨_, r.inlinings.length, (Resumed.refl.begin n hn).poll hcan, le_rfl, ?_⟩
    have hload : (r.begin n).loads[n]? = some load := h.load
    have htext : loadText (r.begin n) n = load.text := by rw [loadText, hload]
    have hsettled : ∀ phase, ((r.begin n).setInlining r.inlinings.length phase).inlinings[
        r.inlinings.length]? = some ⟨n, phase⟩ := by
      intro phase
      rw [getElem?_setInlining, if_pos rfl, hbegun]
      rfl
    simp only [step, stepInlining, hbegun, hload, htext]
    cases hanswers with
    | plain hscan =>
      rw [hscan]
      exact hsettled _
    | refused himports =>
      have hscan : ¬(Directive.scan load.text).isEmpty = true := by
        intro hempty
        rw [imports_of_scan_eq_nil (List.isEmpty_iff.mp hempty)] at himports
        cases himports
      have hbegin := hcoherent.begin hn
      rw [if_neg hscan, stage_eq hbegin.loader hbegin.extension, himports]
      exact hsettled _

/-! ## After a fault -/

/-- On a load whose imports cannot be read nobody ever works. -/
theorem Reached.spent_of_refused (h : Reached lib loads r) {fault : Fault}
    (hload : loads[n]? = some load)
    (himports : lib.imports load.address load.text = .error fault) : Spent n load r := by
  induction h with
  | start => cases hload
  | @submit loads r more hr ih =>
    obtain ⟨hcoherent, hlength⟩ := hr.coherent
    by_cases hn : n < loads.length
    · rw [List.getElem?_append_left hn] at hload
      exact (ih hload).addLoad more
    · refine ⟨?_, fun stake hx => ?_⟩
      · rw [Resolution.addLoad, List.getElem?_append_right (by omega), hlength]
        rw [List.getElem?_append_right (by omega)] at hload
        exact hload
      · have hlt := hcoherent.lt_of_staged (hr.sound.staged_of_mem_stakes hcoherent hx)
        omega
  | begin m _ _ _ ih => exact (ih hload).begin m
  | poll hr hcan ih =>
    exact (ih hload).transition (.refused himports) (transition_of_canStep hr.coherent.1 hcan)
  | elsewhere world _ _ ih => exact ⟨(ih hload).load, (ih hload).lost⟩

/-- When a load is settled, nobody works on it. -/
theorem Reached.spent_of_settled (h : Reached lib loads r) (hn : n < loads.length)
    (hsettled : (Way.load n).Settled r) : ∃ load, loadText r n = load.text ∧ Spent n load r := by
  obtain ⟨hcoherent, hlength⟩ := h.coherent
  have hload := List.getElem?_eq_getElem (hlength ▸ hn)
  refine ⟨r.loads[n], by rw [loadText, hload], hload, fun stake hx => ?_⟩
  exact h.sound.eq_fault_of_settled hcoherent hsettled hx

/-- A load that has ended in a fault may be called on again.  If the fault is one of its own
specifiers, each call ends in it.  If not, a mark is left in its text, and if no directive is, each
call ends in that text. -/
theorem retried_of_fault (h : Reached lib loads r) (hclean : lib.Clean loads) {i : Nat}
    {fault : Fault} (hload : loads[n]? = some load)
    (hi : r.inlinings[i]? = some ⟨n, .settled (.error fault)⟩) :
    (lib.imports load.address load.text = .error fault ∧
        ∀ o, Retried lib r n o ↔ o = .error fault) ∨
      (∃ is, lib.imports load.address load.text = .ok is) ∧ '\x00' ∈ loadText r n ∧
        (Directive.scan (loadText r n) = [] →
          ∀ o, Retried lib r n o ↔ o = .ok (loadText r n)) := by
  have hcoherent := h.coherent.1
  obtain ⟨load', hload', t, hfinished⟩ := h.sound.inlinings i n _ hi
  rw [hload] at hload'
  cases hload'
  rcases hfinished with ⟨fault', himports, heq⟩ | ⟨is, -, himports, -⟩
  · cases heq
    have hspent := h.spent_of_refused hload himports
    exact Or.inl ⟨himports, fun o => hspent.retried_iff hcoherent (.refused himports)⟩
  · refine Or.inr ⟨⟨is, himports⟩, h.mark_mem_of_fault hclean hload himports hi, fun hscan o => ?_⟩
    obtain ⟨left, htext, hspent⟩ :=
      h.spent_of_settled (List.getElem?_eq_some_iff.mp hload).1 ⟨i, _, hi⟩
    rw [htext] at hscan ⊢
    exact hspent.retried_iff hcoherent (.plain hscan)

/-- A load with an import that is found and one that is not. -/
def missingLoads : List Load :=
  [⟨"s/x", "@import \"a\";@import \"b\";", []⟩]

/-- Its first call ends in a fault, and each later one in a text with a placeholder. -/
theorem retried_missing :
    (play smallLibrary missingLoads 20).inlinings[0]? =
        some ⟨0, .settled (.error (smallLibrary.loader.notLocated "s/_b.scss"))⟩ ∧
      ∀ o, Retried smallLibrary (play smallLibrary missingLoads 20) 0 o ↔
        o = .ok "x;\x00s/|./_b.scss\x00;" := by
  have hi : (play smallLibrary missingLoads 20).inlinings[0]? =
      some ⟨0, .settled (.error (smallLibrary.loader.notLocated "s/_b.scss"))⟩ := by decide +kernel
  have htext : loadText (play smallLibrary missingLoads 20) 0 = "x;\x00s/|./_b.scss\x00;" := by
    decide +kernel
  refine ⟨hi, ?_⟩
  rcases retried_of_fault (reached_play smallLibrary missingLoads 20)
    (Library.clean_memory (by decide) (by decide) (by decide) (by decide)) rfl hi with
    ⟨himports, -⟩ | ⟨-, -, hretried⟩
  · exact absurd himports (by decide +kernel)
  · rw [htext] at hretried
    exact hretried (by decide +kernel)

/-- So a fault does not stay one: the placeholder of the missing import is in the text of the second
call. -/
theorem retried_with_mark : ¬∀ (lib : Library) (loads : List Load) (r : Resolution) (i n : Nat)
    (fault : Fault) (text : Text), lib.Clean loads → Reached lib loads r →
    r.inlinings[i]? = some ⟨n, .settled (.error fault)⟩ → Retried lib r n (.ok text) →
    '\x00' ∉ text := by
  intro hall
  have hcan : CanStep ((play smallLibrary missingLoads 20).begin 0) (.source (.inlining 1)) :=
    Or.inl (by decide +kernel)
  have hretried : Retried smallLibrary (play smallLibrary missingLoads 20) 0
      (.ok "x;\x00s/|./_b.scss\x00;") :=
    ⟨_, 1, (Resumed.refl.begin 0 (by decide +kernel)).poll hcan, by decide +kernel,
      by decide +kernel⟩
  refine hall smallLibrary missingLoads _ 0 0
    (smallLibrary.loader.notLocated "s/_b.scss") _ ?_ (reached_play smallLibrary missingLoads 20)
    (by decide +kernel) hretried (by decide)
  exact Library.clean_memory (by decide) (by decide) (by decide) (by decide)

end StyleBatch.Resolution
