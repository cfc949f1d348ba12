import StyleBatch.Proofs.Resolution.Debt
import StyleBatch.Proofs.Resolution.Faultless

/-!
# What a poll does to the text of a load

As long as no task of a load meets a fault, a poll does one of four things to its text (`Effect`):
nothing, or it stages the load, clears a placeholder, or puts the text of a location in the place of
one.  With it goes what is owed: as many placeholders are owed as come and go.

* `Effect.of_foreign`: a transition of another load leaves the text alone.
* `Effect.of_plain`, `Effect.of_staged`, `Effect.of_release`, `Effect.of_expanded`: the effects of the
  load's own transitions.
* `Transition.effect`: every transition has such an effect, whatever it does to other loads.
-/

namespace StyleBatch.Resolution

def LocationPhase.entered : LocationPhase → Bool
  | .expanding .. => true
  | .settled _ => true
  | _ => false

/-- The text of a location has been put in the text of a load. -/
def Entered (r : Resolution) (n : Nat) (l : Location) : Prop :=
  ∃ t, r.location? l = some t ∧ t.load = n ∧ t.phase.entered = true

/-- How many placeholders of a key are owed for a load. -/
def due (r : Resolution) (n : Nat) (k : Key) : Nat :=
  (debt r).count (n, k)

/-- The load is not staged, and no location is put in it. -/
structure Still (n : Nat) (r r' : Resolution) : Prop where
  staged : Staged r' n ↔ Staged r n
  entered : ∀ l, Entered r' n l ↔ Entered r n l

/-- What happens to the text of a load, and to what is owed for it. -/
inductive Effect (lib : Library) (loads : List Load) (n : Nat) (r r' : Resolution) : Prop
  | quiet : Still n r r' → loadText r' n = loadText r n → due r' n = due r n → Effect lib loads n r r'
  /-- The load gets a placeholder for each of its imports. -/
  | staged {load : Load} {is : List Import} :
      ¬Staged r n → loads[n]? = some load → lib.imports load.address load.text = .ok is →
      Staged r' n → (∀ l, Entered r' n l ↔ Entered r n l) → loadText r' n = marked load.text is →
      (∀ k, due r' n k = due r n k + (is.map Import.key).count k) → Effect lib loads n r r'
  /-- The location of the placeholder's key is settled already. -/
  | cleared {k : Key} {file : Text} {l : Location} {o : Outcome} :
      (⟨k, file⟩ : Import).Formed → lib.find k.base file = .ok l → locationOutcome? r l = some o →
      Still n r r' → loadText r' n = k.substitute [] (loadText r n) →
      (∀ k', due r' n k' + (if k = k' then 1 else 0) = due r n k') → Effect lib loads n r r'
  /-- The text of a location takes the place of a placeholder, with one for each of its
  imports. -/
  | entered {t : LocationTask} {file raw : Text} {l : Location} {is : List Import} :
      r.location? l = some t → t.load = n → (⟨t.key, file⟩ : Import).Formed →
      lib.find t.key.base file = .ok l → lib.Reachable loads l → lib.fetch l = .ok raw →
      lib.imports l.text raw = .ok is → 0 < due r n t.key → (Staged r' n ↔ Staged r n) →
      t.phase.entered = false → (∀ l', Entered r' n l' ↔ Entered r n l' ∨ l' = l) →
      loadText r' n = t.key.substitute (marked raw is) (loadText r n) →
      (∀ k, due r' n k + (if t.key = k then 1 else 0) = due r n k + (is.map Import.key).count k) →
      Effect lib loads n r r'

/-! ## What is written -/

section Write

variable {r r' r'' : Resolution} {n : Nat}

theorem staged_setInlining {i n : Nat} {old phase : InliningPhase}
    (hi : r.inlinings[i]? = some ⟨n, old⟩) (hphase : phase ≠ .queued) (m : Nat) :
    Staged (r.setInlining i phase) m ↔ Staged r m ∨ m = n := by
  constructor
  · rintro ⟨i', phase', hi', hphase'⟩
    rw [getElem?_setInlining] at hi'
    split at hi'
    · rename_i hii'
      subst hii'
      rw [hi] at hi'
      cases hi'
      exact Or.inr rfl
    · exact Or.inl ⟨i', phase', hi', hphase'⟩
  · rintro (hstaged | rfl)
    · exact (Later.setInlining r i hphase).staged m hstaged
    · refine ⟨i, phase, ?_, hphase⟩
      rw [getElem?_setInlining, if_pos rfl, hi]
      rfl

theorem staged_setInlining_self {i n : Nat} {old phase : InliningPhase}
    (hi : r.inlinings[i]? = some ⟨n, old⟩) (hphase : phase ≠ .queued) :
    Staged (r.setInlining i phase) n :=
  (staged_setInlining hi hphase n).mpr (Or.inr rfl)

theorem entered_setLocation (l : Location) (t : LocationTask) (phase : LocationPhase) (m : Nat)
    (l' : Location) : Entered (r.setLocation l t phase) m l' ↔
      if l = l' then t.load = m ∧ phase.entered = true else Entered r m l' := by
  rw [Entered, location?_setLocation]
  split
  · simp
  · rfl

namespace Still

theorem trans (h : Still n r r') (h' : Still n r' r'') : Still n r r'' where
  staged := h'.staged.trans h.staged
  entered l := (h'.entered l).trans (h.entered l)

theorem of_eq (hinlinings : r'.inlinings = r.inlinings)
    (hlocations : ∀ l, r'.location? l = r.location? l) : Still n r r' where
  staged := by rw [Staged, Staged, hinlinings]
  entered l := by rw [Entered, Entered, hlocations]

theorem release (own : Bool) (o : Outcome) (m : Nat) (k : Key) (location : Option Location) :
    Still n r (r.release own o m k location) :=
  of_eq (inlinings_release ..) fun _ => location?_release ..

theorem setKey (k : Key) (t : KeyTask) (phase : KeyPhase) : Still n r (r.setKey k t phase) :=
  of_eq rfl fun _ => rfl

theorem setInlining {i m : Nat} {old phase : InliningPhase} (hi : r.inlinings[i]? = some ⟨m, old⟩)
    (hold : old ≠ .queued ∨ m ≠ n) (hphase : phase ≠ .queued) :
    Still n r (r.setInlining i phase) where
  staged := by
    rw [staged_setInlining hi hphase, or_iff_left_iff_imp]
    rintro rfl
    exact ⟨i, old, hi, hold.resolve_right fun h => h rfl⟩
  entered _ := Iff.rfl

theorem setLocation {l : Location} {t : LocationTask} {phase : LocationPhase}
    (hl : r.location? l = some t) (hphase : phase.entered = t.phase.entered ∨ t.load ≠ n) :
    Still n r (r.setLocation l t phase) where
  staged := Iff.rfl
  entered l' := by
    rw [entered_setLocation]
    split
    · rename_i hll'
      subst hll'
      rw [Entered, hl]
      rcases hphase with hphase | hload
      · rw [hphase]
        simp
      · simp [hload]
    · rfl

theorem setLocation_of_none {l : Location} {t : LocationTask} {phase : LocationPhase}
    (hl : r.location? l = none) (hphase : phase.entered = false) :
    Still n r (r.setLocation l t phase) where
  staged := Iff.rfl
  entered l' := by
    rw [entered_setLocation]
    split
    · rename_i hll'
      subst hll'
      rw [Entered, hl, hphase]
      simp
    · rfl

theorem setBranch (owner : Owner) (j : Nat) (phase : BranchPhase) :
    Still n r (r.setBranch owner j phase) := by
  rcases setBranch_cases r owner j phase with heq | ⟨i, m, bs, -, hi, heq⟩ |
    ⟨l, t, raw, bs, -, hl, ht, heq⟩
  · rw [heq]
    exact of_eq rfl fun _ => rfl
  · rw [heq]
    exact setInlining hi (Or.inl nofun) nofun
  · rw [heq]
    exact setLocation hl (Or.inl (by rw [ht]; rfl))

end Still

theorem loadText_congr (h : r'.loads = r.loads) : loadText r' n = loadText r n := by
  rw [loadText, loadText, h]

theorem loadText_setLoadText (hn : n < r.loads.length) (text : Text) :
    loadText (r.setLoadText n text) n = text := by
  rw [loadText, getElem?_setLoadText, if_pos rfl, List.getElem?_eq_getElem hn]
  rfl

theorem loadText_setLoadText_of_ne {m : Nat} (hmn : m ≠ n) (text : Text) :
    loadText (r.setLoadText m text) n = loadText r n := by
  rw [loadText, getElem?_setLoadText, if_neg hmn, loadText]

theorem loadText_release_of_ne {m : Nat} (hmn : m ≠ n) (own : Bool) (o : Outcome) (k : Key)
    (location : Option Location) : loadText (r.release own o m k location) n = loadText r n := by
  rcases release_cases r own o m k location with h | ⟨-, -, h⟩
  · rw [h]
  · rw [h]
    exact loadText_setLoadText_of_ne hmn _

theorem marked_of_scan_eq_nil {raw : Text} (h : Directive.scan raw = []) : marked raw [] = raw := by
  rw [marked, h]
  rfl

theorem branchesDebt_of_allSettled {bs : List Branch} (h : AllSettled bs) : branchesDebt bs = 0 := by
  induction bs with
  | nil => rfl
  | cons b bs ih =>
    obtain ⟨o, ho⟩ := h b List.mem_cons_self
    have hrest := ih fun b' hb' => h b' (List.mem_cons_of_mem _ hb')
    rw [branchesDebt] at hrest ⊢
    rw [List.map_cons, List.sum_cons, hrest, Branch.debt, ho]
    rfl

theorem KeyPhase.Searching.owes {lib : Library} {calls : DiskCalls} {k : Key} {file : Text}
    {phase : KeyPhase} (h : phase.Searching lib calls k file) : phase.owes = true := by
  cases phase with
  | normalizing | locating => rfl
  | reserved | settled => exact h.elim

theorem Coherent.lt_of_staged {lib : Library} (h : Coherent lib r) {n : Nat} (hn : Staged r n) :
    n < r.loads.length := by
  obtain ⟨i, phase, hi, -⟩ := hn
  exact h.loads _ (List.mem_of_getElem? hi)

end Write

/-! ## What is owed -/

section Owed

variable {r : Resolution}

theorem debt_setKey {k : Key} {t : KeyTask} (hk : r.key? k = some t) (phase : KeyPhase) :
    debt (r.setKey k t phase) + owed t.phase.owes t.load k =
      debt r + owed phase.owes t.load k :=
  total_setKey debtWeight hk phase

theorem debt_setLocation {l : Location} {t : LocationTask} (hl : r.location? l = some t)
    (phase : LocationPhase) :
    debt (r.setLocation l t phase) + t.debt = debt r + { t with phase }.debt :=
  total_setLocation debtWeight hl phase

theorem debt_setInlining {i n : Nat} {old : InliningPhase} (hi : r.inlinings[i]? = some ⟨n, old⟩)
    (phase : InliningPhase) : debt (r.setInlining i phase) + Inlining.debt ⟨n, old⟩ =
      debt r + Inlining.debt ⟨n, phase⟩ :=
  total_setInlining debtWeight hi phase

/-- Nothing is owed by an inlining without branches. -/
theorem debt_setInlining_of_eq {i n : Nat} {old phase : InliningPhase}
    (hi : r.inlinings[i]? = some ⟨n, old⟩)
    (hphase : Inlining.debt ⟨n, phase⟩ = Inlining.debt ⟨n, old⟩) :
    debt (r.setInlining i phase) = debt r := by
  have hdebt := debt_setInlining hi phase
  rw [hphase] at hdebt
  exact add_right_cancel hdebt

theorem debt_setBranch {owner : Owner} {j : Nat} {b : Branch}
    (hj : (branches r owner)[j]? = some b) (phase : BranchPhase) :
    debt (r.setBranch owner j phase) + owed b.phase.owes b.load b.target.key =
      debt r + owed phase.owes b.load b.target.key :=
  total_setBranch debtWeight hj phase

theorem debt_release (own : Bool) (o : Outcome) (n : Nat) (k : Key) (location : Option Location) :
    debt (r.release own o n k location) = debt r :=
  total_congr _ (cache_release ..) (inlinings_release ..)

end Owed

/-- Every placeholder in it is of another load. -/
def Foreign (n : Nat) (x : Multiset (Nat × Key)) : Prop :=
  ∀ k, x.count (n, k) = 0

theorem foreign_zero (n : Nat) : Foreign n 0 :=
  fun _ => Multiset.count_zero _

theorem foreign_owed {m n : Nat} (h : m ≠ n) (owes : Bool) (k : Key) : Foreign n (owed owes m k) := by
  intro k'
  rw [Multiset.count_eq_zero, mem_owed]
  rintro ⟨-, heq⟩
  exact h (congrArg Prod.fst heq).symm

theorem foreign_branchesDebt {n : Nat} {bs : List Branch} (h : ∀ b ∈ bs, b.load ≠ n) :
    Foreign n (branchesDebt bs) := by
  intro k
  rw [Multiset.count_eq_zero]
  intro hmem
  obtain ⟨b, hb, hload⟩ := mem_branchesDebt hmem
  exact h b hb hload

theorem foreign_freshBranches {m n : Nat} (h : m ≠ n) {is : List Import} {ancestry : Ancestry} :
    Foreign n (branchesDebt (freshBranches is m ancestry)) := by
  refine foreign_branchesDebt fun b hb => ?_
  obtain ⟨i, -, rfl⟩ := List.mem_map.mp hb
  exact h

theorem foreign_location {n : Nat} {t : LocationTask} (h : t.load ≠ n)
    (hphase : ∀ raw bs, t.phase ≠ .expanding raw bs) : Foreign n t.debt := by
  rw [LocationTask.debt]
  split
  · rename_i raw bs hexpanding
    exact absurd hexpanding (hphase raw bs)
  · exact foreign_zero n
  · exact foreign_owed h true t.key

theorem count_owed (owes : Bool) (n : Nat) (k k' : Key) :
    (owed owes n k).count (n, k') = if owes = true ∧ k = k' then 1 else 0 := by
  cases owes
  · simp [owed]
  · simp [owed, Multiset.count_singleton, eq_comm]

theorem count_pairs (is : List Import) (n : Nat) (k : Key) :
    Multiset.count (n, k) ↑(is.map fun i => (n, i.key)) = (is.map Import.key).count k := by
  have hmap : (↑(is.map fun i => (n, i.key)) : Multiset (Nat × Key)) =
      Multiset.map (Prod.mk n) ↑(is.map Import.key) := by
    rw [Multiset.map_coe, List.map_map]
    rfl
  rw [hmap, Multiset.count_map_eq_count' _ _ (Prod.mk_right_injective n), Multiset.coe_count]

section Due

variable {r r' : Resolution} {n : Nat} {x y : Multiset (Nat × Key)}

theorem due_eq (h : debt r' = debt r) : due r' n = due r n := by
  funext k
  rw [due, due, h]

/-- What goes and what comes for other loads does not count. -/
theorem due_eq_of_foreign (h : debt r' + x = debt r + y) (hx : Foreign n x) (hy : Foreign n y) :
    due r' n = due r n := by
  funext k
  have hcount := congrArg (Multiset.count (n, k)) h
  rw [Multiset.count_add, Multiset.count_add, hx, hy] at hcount
  exact hcount

end Due

/-! ## Every transition has an effect -/

section Transition

variable {lib : Library} {loads : List Load} {r r' : Resolution} {n : Nat} {task : Task}

/-- Whoever is released owes nothing any more, and has cleared a placeholder if it owed one. -/
theorem Effect.of_release {own : Bool} {o : Outcome} {k : Key} {file : Text} {l : Location}
    (location : Option Location) (hn : n < r.loads.length) (ho : ∃ t, o = .ok t)
    (hformed : (⟨k, file⟩ : Import).Formed) (hfind : lib.find k.base file = .ok l)
    (hl : locationOutcome? r l = some o) (hstill : Still n r r')
    (hloads : r'.loads = (r.release own o n k location).loads)
    (hdebt : debt r' + owed (!own) n k = debt r) : Effect lib loads n r r' := by
  obtain ⟨t, rfl⟩ := ho
  cases own with
  | true => exact .quiet hstill (loadText_congr hloads) (due_eq ((add_zero _).symm.trans hdebt))
  | false =>
    refine .cleared hformed hfind hl hstill ?_ fun k' => ?_
    · rw [loadText_congr hloads]
      exact loadText_setLoadText hn _
    · have hcount := congrArg (Multiset.count (n, k')) hdebt
      rw [Multiset.count_add, count_owed] at hcount
      simpa [due] using hcount

/-- Nothing is done to a load if no text is written and as much is owed. -/
theorem Effect.of_same (hstill : Still n r r') (hloads : r'.loads = r.loads)
    (hdebt : debt r' = debt r) : Effect lib loads n r r' :=
  .quiet hstill (loadText_congr hloads) (due_eq hdebt)

/-- Nor if what goes and what comes is owed for other loads. -/
theorem Effect.of_foreign {x y : Multiset (Nat × Key)} (hstill : Still n r r')
    (htext : loadText r' n = loadText r n) (hdebt : debt r' + x = debt r + y) (hx : Foreign n x)
    (hy : Foreign n y) : Effect lib loads n r r' :=
  .quiet hstill htext (due_eq_of_foreign hdebt hx hy)

/-- The text of a load stays as it is when nothing is owed for it. -/
theorem Effect.loadText_eq (he : Effect lib loads n r r') (hstaged : Staged r n)
    (hnone : ∀ k, due r n k = 0) : loadText r' n = loadText r n := by
  cases he with
  | quiet _ htext => exact htext
  | staged hnot => exact absurd hstaged hnot
  | @cleared k _ _ _ _ _ _ _ _ hdue =>
    have hk := hdue k
    rw [hnone, if_pos rfl] at hk
    omega
  | entered _ _ _ _ _ _ _ howed =>
    rw [hnone] at howed
    omega

/-- A source without directives is staged as it is. -/
theorem Effect.of_plain (h : Sound lib loads r) {i : Nat}
    (hi : r.inlinings[i]? = some ⟨n, .queued⟩) (hscan : Directive.scan (loadText r n) = []) :
    Effect lib loads n r (r.setInlining i (.settled (.ok (loadText r n)))) := by
  obtain ⟨load, hload, -⟩ := h.inlinings i n _ hi
  have hnot := h.not_staged_of_queued hi
  have htext : loadText r n = load.text := by rw [loadText, h.unstaged n hnot, hload]
  have hdebt : debt (r.setInlining i (.settled (.ok (loadText r n)))) = debt r :=
    debt_setInlining_of_eq hi rfl
  have hstaged : Staged (r.setInlining i (.settled (.ok (loadText r n)))) n :=
    staged_setInlining_self hi (by simp)
  rw [htext] at hscan
  have himports : lib.imports load.address load.text = .ok [] := by
    rw [Library.imports, hscan]
    rfl
  refine .staged hnot hload himports hstaged (fun _ => Iff.rfl) ?_
    fun k => congrFun (due_eq hdebt) k
  rw [marked_of_scan_eq_nil hscan, ← htext]
  rfl

/-- A load gets its placeholders, and its branches owe them. -/
theorem Effect.of_staged (hn : n < r.loads.length) (h : Sound lib loads r) {i : Nat} {load : Load}
    {is : List Import} (hi : r.inlinings[i]? = some ⟨n, .queued⟩) (hload : r.loads[n]? = some load)
    (himports : lib.imports load.address load.text = .ok is) :
    Effect lib loads n r ((r.setLoadText n (marked load.text is)).setInlining i
      (.expanding (freshBranches is n [load.address]))) := by
  have hi' : (r.setLoadText n (marked load.text is)).inlinings[i]? = some ⟨n, .queued⟩ := hi
  have hstaged : Staged ((r.setLoadText n (marked load.text is)).setInlining i
      (.expanding (freshBranches is n [load.address]))) n :=
    staged_setInlining_self hi' nofun
  refine .staged (h.not_staged_of_queued hi) (h.load_of_queued hi hload) himports hstaged
    (fun _ => Iff.rfl) (loadText_setLoadText hn _) fun k => ?_
  have hcount := congrArg (Multiset.count (n, k))
    (debt_setInlining hi' (.expanding (freshBranches is n [load.address])))
  rw [Multiset.count_add, Multiset.count_add] at hcount
  rw [← count_pairs, ← branchesDebt_freshBranches is n [load.address]]
  exact hcount

/-- A location that is to be put in the text of its load owes the placeholder of its key. -/
theorem due_pos_of_location {l : Location} {t : LocationTask} (hl : r.location? l = some t)
    (hdebt : t.debt = {(t.load, t.key)}) : 0 < due r t.load t.key := by
  rw [due, Multiset.count_pos]
  refine mem_total_of_location hl ?_
  change (t.load, t.key) ∈ t.debt
  rw [hdebt]
  exact Multiset.mem_singleton_self _

/-- The text of a location takes the place of the placeholder that it owes, and its branches owe
those in it. -/
theorem Effect.of_expanded (hcoherent : Coherent lib r) (h : Sound lib loads r)
    (hplain : lib.Plain loads) {l : Location} {t : LocationTask} {pause : Pause Outcome} {raw : Text}
    {is : List Import} (kind : EventKind) (hl : r.location? l = some t)
    (hphase : t.phase = .fetching pause) (hfetch : lib.fetch l = .ok raw)
    (himports : lib.imports l.text raw = .ok is) :
    Effect lib loads t.load r (setLocation
      (substitute (emit r kind) t.load t.key (marked raw is)) l t
      (.expanding raw (freshBranches is t.load (l.text :: t.ancestry)))) := by
  have hn := hcoherent.lt_of_staged (h.staged_of_location hl)
  obtain ⟨⟨tk, htk, -, -, hfind, -⟩, -⟩ := h.locations l t hl
  obtain ⟨w, hw, -⟩ := h.exists_way_location hl
  have hold : t.debt = {(t.load, t.key)} := by rw [LocationTask.debt, hphase]
  have hnew : LocationTask.debt ⟨t.key, t.load, t.ancestry,
      .expanding raw (freshBranches is t.load (l.text :: t.ancestry))⟩ =
      ↑(is.map fun i => (t.load, i.key)) := branchesDebt_freshBranches ..
  have hdebt := debt_setLocation
    (r := substitute (emit r kind) t.load t.key (marked raw is)) hl
    (.expanding raw (freshBranches is t.load (l.text :: t.ancestry)))
  rw [hold, hnew] at hdebt
  have hnot : ¬Entered r t.load l := by
    rintro ⟨t', hl', -, hentered⟩
    rw [hl] at hl'
    cases hl'
    rw [hphase] at hentered
    cases hentered
  refine .entered hl rfl (h.formed hplain htk) hfind ((hw.open h).reachable hplain) hfetch himports
    (due_pos_of_location hl hold) Iff.rfl (by rw [hphase]; rfl) (fun l' => ?_)
    (loadText_setLoadText hn _) fun k => ?_
  · rw [entered_setLocation]
    split
    · rename_i hll'
      subst hll'
      simp [hnot, LocationPhase.entered]
    · rename_i hne
      have hne' : ¬l' = l := fun heq => hne heq.symm
      simp only [hne', or_false]
      rfl
  · have hcount := congrArg (Multiset.count (t.load, k)) hdebt
    rw [Multiset.count_add, Multiset.count_add, count_pairs, Multiset.count_singleton] at hcount
    simp only [Prod.mk.injEq, true_and, eq_comm (a := k) (b := t.key)] at hcount
    exact hcount

/-! One lemma for each kind of task. What goes on for other loads is `Effect.of_foreign`; a task of
the load itself does not end in a fault, which leaves its other transitions. -/

theorem Transition.effect_inlining {i : Nat} (ht : Transition lib r (.source (.inlining i)) r')
    (hcoherent : Coherent lib r) (h : Sound lib loads r) (hf : Faultless lib loads r' n) :
    Effect lib loads n r r' := by
  cases ht with
  | @plain _ m hi hscan =>
    by_cases hmn : m = n
    · subst hmn
      exact .of_plain h hi hscan
    · exact .of_same (.setInlining hi (Or.inr hmn) nofun) rfl (debt_setInlining_of_eq hi rfl)
  | @refused _ m load fault hi hload himports =>
    by_cases hmn : m = n
    · subst hmn
      have hstaged : Staged (r.setInlining i (.settled (.error fault))) m :=
        staged_setInlining_self hi nofun
      obtain ⟨is, himports', -⟩ := hf.source _ _ _ hstaged (.load (h.load_of_queued hi hload))
      rw [himports] at himports'
      cases himports'
    · exact .of_same (.setInlining hi (Or.inr hmn) nofun) rfl (debt_setInlining_of_eq hi rfl)
  | @staged _ m load is hi hload _ himports =>
    by_cases hmn : m = n
    · subst hmn
      exact .of_staged (hcoherent.loads _ (List.mem_of_getElem? hi)) h hi hload himports
    · have hi' : (setLoadText r m (marked load.text is)).inlinings[i]? = some ⟨m, .queued⟩ := hi
      have hstill : Still n r (setLoadText r m (marked load.text is)) := .of_eq rfl fun _ => rfl
      exact .of_foreign (hstill.trans (.setInlining hi' (Or.inr hmn) nofun))
        (loadText_setLoadText_of_ne hmn _) (debt_setInlining hi' _) (foreign_zero n)
        (foreign_freshBranches hmn)
  | @inlined _ m bs hi hbs =>
    have hbranches : Inlining.debt ⟨m, .expanding bs⟩ = 0 := branchesDebt_of_allSettled hbs
    exact .of_same (.setInlining hi (Or.inl nofun) nofun) rfl
      (debt_setInlining_of_eq hi hbranches.symm)

theorem Transition.effect_branch {owner : Owner} {j : Nat}
    (ht : Transition lib r (.branch owner j) r') (hcoherent : Coherent lib r)
    (h : Sound lib loads r) (hplain : lib.Plain loads) (hf : Faultless lib loads r n) :
    Effect lib loads n r r' := by
  cases ht with
  | @looped _ _ b hj hphase hmem =>
    by_cases hload : b.load = n
    · subst hload
      exact absurd hmem (hf.asked (h.branch hj).1).1
    · exact .of_foreign (.setBranch ..) (loadText_congr (loads_setBranch ..))
        (debt_setBranch hj _) (foreign_owed hload _ _) (foreign_owed hload _ _)
  | @asked _ _ b pauses hj hphase _ hk =>
    refine .of_same ((Still.setKey ..).trans (.setBranch ..)) ?_ ?_
    · rw [loads_setBranch, loads_setKey]
    · have hkey : debt (r.setKey b.target.key (b.keyTask pauses) (.normalizing pauses)) =
          debt r + {(b.load, b.target.key)} := total_setKey_of_none debtWeight hk _ _
      have hdebt := debt_setBranch
        (r := r.setKey b.target.key (b.keyTask pauses) (.normalizing pauses)) hj (.reserved true)
      rw [hphase, hkey] at hdebt
      exact add_right_cancel (hdebt.trans (add_zero _))
  | @joined _ _ b t hj hphase =>
    have hdebt := debt_setBranch hj (.reserved false)
    rw [hphase] at hdebt
    exact .of_same (.setBranch ..) (loads_setBranch ..) (add_right_cancel hdebt)
  | @answered _ _ b own o hj hphase ho =>
    have hdebt := debt_setBranch (r := r.release own o b.load b.target.key none)
      (by rw [branches_release]; exact hj) (.settled o)
    rw [hphase, debt_release] at hdebt
    have hstill : Still n r ((r.release own o b.load b.target.key none).setBranch owner j
        (.settled o)) := (Still.release ..).trans (.setBranch ..)
    by_cases hload : b.load = n
    · subst hload
      have hasked := (h.branch hj).1
      obtain ⟨text, rfl⟩ := (hf.asked hasked).2 o ho
      obtain ⟨t, hk, -⟩ := keyOutcome?_eq_some.mp ho
      obtain ⟨l, hfind, hl⟩ := h.exists_location_of_ok hk ho
      exact .of_release none (hcoherent.lt_of_staged hasked.1) ⟨text, rfl⟩ (h.formed hplain hk) hfind
        hl hstill (loads_setBranch ..) (hdebt.trans (add_zero _))
    · refine .of_foreign hstill ?_ hdebt (foreign_owed hload _ _) (foreign_owed hload _ _)
      rw [loadText_congr (loads_setBranch ..), loadText_release_of_ne hload]

theorem Transition.effect_key {k : Key} (ht : Transition lib r (.key k) r')
    (hcoherent : Coherent lib r) (h : Sound lib loads r) (hplain : lib.Plain loads)
    (hf : Faultless lib loads r n) : Effect lib loads n r r' := by
  cases ht with
  | @searched _ t phase calls hk hsearching hsearching' =>
    have hdebt := debt_setKey (r := { r with calls }) hk phase
    rw [hsearching.owes, hsearching'.owes] at hdebt
    exact .of_same (.of_eq rfl fun _ => rfl) rfl (add_right_cancel hdebt)
  | @lost _ t fault hk _ hfind =>
    by_cases hload : t.load = n
    · subst hload
      exact absurd hfind (hf.find_ne_error hk)
    · exact .of_foreign (.setKey ..) rfl (debt_setKey hk _) (foreign_owed hload _ _)
        (foreign_owed hload _ _)
  | @circled _ t l hk _ hfind hmem =>
    by_cases hload : t.load = n
    · subst hload
      exact absurd hmem (hf.found hk hfind).1
    · exact .of_foreign (.setKey ..) rfl (debt_setKey hk _) (foreign_owed hload _ _)
        (foreign_owed hload _ _)
  | @opened _ t l hk hsearching _ _ _ hl =>
    have hlocation : debt (r.setLocation l (t.locationTask k) .queued) = debt r + {(t.load, k)} :=
      total_setLocation_of_none debtWeight hl _ _
    have hdebt := debt_setKey (r := r.setLocation l (t.locationTask k) .queued) hk (.reserved l true)
    rw [hsearching.owes, hlocation] at hdebt
    exact .of_same ((Still.setLocation_of_none hl rfl).trans (.setKey ..)) rfl
      (add_right_cancel (hdebt.trans (add_zero _)))
  | @shared _ t l u hk hsearching =>
    have hdebt := debt_setKey hk (.reserved l false)
    rw [hsearching.owes] at hdebt
    exact .of_same (.setKey ..) rfl (add_right_cancel hdebt)
  | @passed _ t l own o hk hphase ho =>
    have hdebt := debt_setKey (r := r.release own o t.load k (some l))
      (by rw [key?_release]; exact hk) (.settled o)
    rw [hphase, debt_release] at hdebt
    have hstill : Still n r ((r.release own o t.load k (some l)).setKey k t (.settled o)) :=
      (Still.release ..).trans (.setKey ..)
    by_cases hload : t.load = n
    · subst hload
      obtain ⟨hasked, -, hsound⟩ := h.keys k t hk
      rw [hphase] at hsound
      have hfault := (hf.found hk hsound.1).2
      exact .of_release (some l) (hcoherent.lt_of_staged hasked.1) (hfault o ho)
        (h.formed hplain hk) hsound.1 ho hstill rfl (hdebt.trans (add_zero _))
    · exact .of_foreign hstill (loadText_release_of_ne hload ..) hdebt (foreign_owed hload _ _)
        (foreign_owed hload _ _)

theorem Transition.effect_location {l : Location} (ht : Transition lib r (.source (.location l)) r')
    (hcoherent : Coherent lib r) (h : Sound lib loads r) (hplain : lib.Plain loads)
    (hf : Faultless lib loads r n) : Effect lib loads n r r' := by
  cases ht with
  | @requested _ t pause calls hl hphase =>
    have hstill : Still n r { r with calls, fetched := r.fetched ++ [l.text] } :=
      .of_eq rfl fun _ => rfl
    have hdebt := debt_setLocation (r := { r with calls, fetched := r.fetched ++ [l.text] }) hl
      (.fetching pause)
    rw [LocationTask.debt, hphase] at hdebt
    exact .of_same (hstill.trans (.setLocation hl (Or.inl (by rw [hphase]; rfl)))) rfl
      (add_right_cancel hdebt)
  | @awaited _ t pause pause' hl hphase =>
    have hdebt := debt_setLocation hl (.fetching pause')
    rw [LocationTask.debt, hphase] at hdebt
    exact .of_same (.setLocation hl (Or.inl (by rw [hphase]; rfl))) rfl (add_right_cancel hdebt)
  | @missing _ t pause fault hl hphase hfetch =>
    by_cases hload : t.load = n
    · obtain ⟨raw, hfetch'⟩ := hf.location _ _ hl hload
      rw [hfetch] at hfetch'
      cases hfetch'
    · refine .of_foreign (.setLocation hl (Or.inr hload)) rfl (debt_setLocation hl _)
        (foreign_location hload ?_) (foreign_zero n)
      simp [hphase]
  | @spoiled _ t pause raw fault kind hl hphase hfetch himports =>
    by_cases hload : t.load = n
    · subst hload
      obtain ⟨is, himports'⟩ := hf.location_imports h hl hfetch
      rw [himports] at himports'
      cases himports'
    · have hstill : Still n r (emit r kind) := .of_eq rfl fun _ => rfl
      refine .of_foreign (hstill.trans (.setLocation hl (Or.inr hload))) rfl
        (debt_setLocation (r := emit r kind) hl _) (foreign_location hload ?_) (foreign_zero n)
      simp [hphase]
  | @expanded _ t pause raw is kind hl hphase hfetch himports =>
    by_cases hload : t.load = n
    · subst hload
      exact .of_expanded hcoherent h hplain kind hl hphase hfetch himports
    · have hstill : Still n r (substitute (emit r kind) t.load t.key (marked raw is)) :=
        .of_eq rfl fun _ => rfl
      refine .of_foreign (hstill.trans (.setLocation hl (Or.inr hload)))
        (loadText_setLoadText_of_ne hload _)
        (debt_setLocation (r := substitute (emit r kind) t.load t.key (marked raw is)) hl _)
        (foreign_location hload ?_) (foreign_freshBranches hload)
      simp [hphase]
  | @filled _ t raw bs hl hphase hbs =>
    have hdebt := debt_setLocation hl (.settled ((texts bs).map (fill raw (Directive.scan raw))))
    rw [LocationTask.debt, hphase, LocationTask.debt] at hdebt
    simp only [branchesDebt_of_allSettled hbs, add_zero] at hdebt
    exact .of_same (.setLocation hl (Or.inl (by rw [hphase]; rfl))) rfl hdebt

theorem Transition.effect (ht : Transition lib r task r') (hcoherent : Coherent lib r)
    (h : Sound lib loads r) (hplain : lib.Plain loads) (hf : Faultless lib loads r' n) :
    Effect lib loads n r r' := by
  have hf' : Faultless lib loads r n := hf.of_later ht.later
  cases task with
  | source owner =>
    cases owner with
    | inlining => exact ht.effect_inlining hcoherent h hf
    | location => exact ht.effect_location hcoherent h hplain hf'
  | branch => exact ht.effect_branch hcoherent h hplain hf'
  | key => exact ht.effect_key hcoherent h hplain hf'
  | disk =>
    cases ht
    exact .of_same (.of_eq rfl fun _ => rfl) rfl rfl

end Transition

end StyleBatch.Resolution
