import StyleBatch.Proofs.Pipeline.Notes
import StyleBatch.Proofs.Sequence

/-!
# The counts of a batch agree with the notes

A batch knows an epoch, two counts and a buffer.  `Ledger notes b` says what they are in terms of
the notes, and `Ledger.join`, `Ledger.leave` that joining and leaving keep it so.  What is said
about a closed batch is then read off the notes.

* `Ledger.outstanding_eq_zero_iff`: nobody is in when all who have joined have left.
* `Ledger.stillOpen_iff`: the current epoch is still open when somebody is in.
* `Ledger.closed`: what the last one takes along.
-/

namespace StyleBatch

open Notes

/-- What a batch counts is what the notes say. -/
structure Ledger (notes : List Note) (b : Batch) : Prop where
  outstanding : b.outstanding + (leavers notes).length = (joiners notes).length
  epoch : b.epoch = Notes.epoch notes
  members : b.members = (joinersOf b.epoch notes).length
  buffer : b.buffer = if b.outstanding = 0 then [] else handedIn b.epoch notes
  bounds : ∀ i e, .joined i e ∈ notes → 0 < e ∧ e ≤ b.epoch
  inside : ∀ i e, .joined i e ∈ notes → i ∉ leavers notes → e = b.epoch
  stillOpen : b.outstanding ≠ 0 → StillOpen notes
  nodup_joiners : (joiners notes).Nodup
  nodup_leavers : (leavers notes).Nodup
  subset : leavers notes ⊆ joiners notes
  handed : ∀ closed ∈ handedOver notes, closed.epoch ≤ b.epoch ∧
    (closed.epoch = b.epoch → b.outstanding = 0)
  ordered : (handedOver notes).Pairwise fun closed closed' => closed.epoch < closed'.epoch

namespace Ledger

variable {notes : List Note} {b : Batch} {i : Nat}

theorem start : Ledger [] {} := by
  refine ⟨rfl, rfl, rfl, rfl, fun _ _ h => (nomatch h), fun _ _ h => (nomatch h), ?_,
    List.nodup_nil, List.nodup_nil, fun _ h => h, fun _ h => (nomatch h), .nil⟩
  exact fun h => absurd rfl h

/-- Only the epoch, the counts and the buffer are in the ledger. -/
theorem congr (h : Ledger notes b) {b' : Batch} (hepoch : b'.epoch = b.epoch)
    (houtstanding : b'.outstanding = b.outstanding) (hmembers : b'.members = b.members)
    (hbuffer : b'.buffer = b.buffer) : Ledger notes b' where
  outstanding := houtstanding ▸ h.outstanding
  epoch := hepoch ▸ h.epoch
  members := by rw [hmembers, hepoch, h.members]
  buffer := by rw [hbuffer, houtstanding, hepoch, h.buffer]
  bounds := hepoch ▸ h.bounds
  inside := hepoch ▸ h.inside
  stillOpen := houtstanding ▸ h.stillOpen
  nodup_joiners := h.nodup_joiners
  nodup_leavers := h.nodup_leavers
  subset := h.subset
  handed := by rw [hepoch, houtstanding]; exact h.handed
  ordered := h.ordered

/-- The count of those who have not left. -/
theorem outstanding_eq (h : Ledger notes b) : b.outstanding = joinCount notes := by
  have hcount := h.outstanding
  rw [joinCount]
  omega

/-- A load joins one epoch. -/
theorem epoch_unique (h : Ledger notes b) {e e' : Nat} (he : .joined i e ∈ notes)
    (he' : .joined i e' ∈ notes) : e = e' := by
  have heq := eq_of_filterMap_nodup h.nodup_joiners he he' rfl rfl
  injection heq

/-- A load leaves once. -/
theorem left_unique (h : Ledger notes b) {c c' : Contribution} {closed closed' : Option ClosedBatch}
    (hleft : .left i c closed ∈ notes) (hleft' : .left i c' closed' ∈ notes) :
    c = c' ∧ closed = closed' := by
  have heq := eq_of_filterMap_nodup h.nodup_leavers hleft hleft' rfl rfl
  injection heq with _ hcontribution hclosed
  exact ⟨hcontribution, hclosed⟩

/-- Nobody is in when all who have joined have left. -/
theorem outstanding_eq_zero_iff (h : Ledger notes b) :
    b.outstanding = 0 ↔ joiners notes ⊆ leavers notes := by
  have hcount := h.outstanding
  constructor
  · intro hzero
    have hperm := (h.nodup_leavers.subperm h.subset).perm_of_length_le (by omega)
    exact hperm.symm.subset
  · intro hsubset
    have hle := (h.nodup_joiners.subperm hsubset).length_le
    omega

/-- The current epoch is still open when somebody is in. -/
theorem stillOpen_iff (h : Ledger notes b) : StillOpen notes ↔ b.outstanding ≠ 0 :=
  ⟨fun hopen => h.outstanding_eq ▸ hopen.joinCount_ne_zero, h.stillOpen⟩

theorem members_of_new (h : Ledger notes b) {e : Nat} (he : b.epoch < e) :
    joinersOf e notes = [] := by
  refine List.eq_nil_iff_forall_not_mem.mpr fun i hi => ?_
  have hle := (h.bounds i e (mem_joinersOf.mp hi)).2
  omega

/-! ## What is noted keeps the ledger -/

/-- A note that is about neither joining nor leaving. -/
theorem idle (h : Ledger notes b) {note : Note} (hidle : Idle note) :
    Ledger (notes ++ [note]) b := by
  have hmem : ∀ i e, .joined i e ∈ notes ++ [note] → .joined i e ∈ notes := by
    intro i e hi
    rcases List.mem_append.mp hi with hi | hi
    · exact hi
    · rw [← List.mem_singleton.mp hi] at hidle
      exact hidle.elim
  have hjoiners : joiners [note] = [] := by cases note <;> first | rfl | exact hidle.elim
  have hof : ∀ e, joinersOf e [note] = [] := by
    intro e
    cases note <;> first | rfl | exact hidle.elim
  have hepochs : epochs [note] = [] := by cases note <;> first | rfl | exact hidle.elim
  have hleavers : leavers [note] = [] := by cases note <;> first | rfl | exact hidle.elim
  have hhanded : ∀ e, handedIn e (notes ++ [note]) = handedIn e notes := by
    intro e
    rw [handedIn_append fun i _ hi => by rw [← List.mem_singleton.mp hi] at hidle; exact hidle]
    cases note <;> first | exact List.append_nil _ | exact hidle.elim
  have hcount : joinCount (notes ++ [note]) = joinCount notes := by
    rw [joinCount, joiners_append, leavers_append, hjoiners, hleavers, List.append_nil,
      List.append_nil, joinCount]
  have hjoiners' : joiners (notes ++ [note]) = joiners notes := by
    rw [joiners_append, hjoiners, List.append_nil]
  have hleavers' : leavers (notes ++ [note]) = leavers notes := by
    rw [leavers_append, hleavers, List.append_nil]
  have hover : handedOver (notes ++ [note]) = handedOver notes := by
    rw [handedOver_append]
    cases note <;> first | exact List.append_nil _ | exact hidle.elim
  refine ⟨?_, ?_, ?_, ?_, fun i e hi => h.bounds i e (hmem i e hi), ?_, ?_, ?_, ?_, ?_,
    hover ▸ h.handed, hover ▸ h.ordered⟩
  · rw [hjoiners', hleavers', h.outstanding]
  · rw [epoch_of_not_joined hepochs, h.epoch]
  · rw [joinersOf_append, hof, List.append_nil, h.members]
  · rw [hhanded, h.buffer]
  · rw [hleavers']
    exact fun i e hi => h.inside i e (hmem i e hi)
  · intro hne
    refine (h.stillOpen hne).append (epoch_of_not_joined hepochs) ?_
    rw [hcount, ← h.outstanding_eq]
    exact hne
  · rw [hjoiners']
    exact h.nodup_joiners
  · rw [hleavers']
    exact h.nodup_leavers
  · rw [hjoiners', hleavers']
    exact h.subset

/-! ## Joining -/

theorem outstanding_join (b : Batch) : b.join.outstanding = b.outstanding + 1 := by
  rw [Batch.join]
  split
  · rename_i hzero
    simp [hzero]
  · rfl

theorem epoch_join (b : Batch) :
    b.join.epoch = if b.outstanding = 0 then b.epoch + 1 else b.epoch := by
  rw [Batch.join]
  split <;> rfl

theorem buffer_join (b : Batch) : b.join.buffer = b.buffer := by
  rw [Batch.join]
  split <;> rfl

theorem epoch_le_join (b : Batch) : b.epoch ≤ b.join.epoch := by
  rw [epoch_join]
  split <;> omega

section

variable (i e : Nat)

theorem joiners_joined : joiners (notes ++ [.joined i e]) = joiners notes ++ [i] :=
  joiners_append ..

theorem leavers_joined : leavers (notes ++ [.joined i e]) = leavers notes := by
  rw [leavers_append]
  exact List.append_nil _

theorem handedOver_joined : handedOver (notes ++ [.joined i e]) = handedOver notes := by
  rw [handedOver_append]
  exact List.append_nil _

theorem joined_mem_joined {i' e' : Nat} :
    .joined i' e' ∈ notes ++ [.joined i e] ↔ .joined i' e' ∈ notes ∨ i' = i ∧ e' = e := by
  simp

theorem handedIn_joined (hleft : i ∉ leavers notes) (e' : Nat) :
    handedIn e' (notes ++ [.joined i e]) = handedIn e' notes := by
  rw [handedIn_append]
  · exact List.append_nil _
  · intro i' hi' hmem
    injection List.mem_singleton.mp hmem with hii'
    exact hleft (hii' ▸ hi')

theorem joinCount_joined (h : Ledger notes b) :
    joinCount (notes ++ [.joined i e]) = b.outstanding + 1 := by
  have hcount := h.outstanding
  rw [joinCount, joiners_joined, leavers_joined, List.length_append, List.length_singleton]
  omega

end

/-- Nobody has handed in anything for an epoch that nobody has joined. -/
theorem handedIn_of_new (h : Ledger notes b) {e : Nat} (he : b.epoch < e) :
    handedIn e notes = [] := by
  rw [handedIn, List.flatMap_eq_nil_iff]
  intro note _
  split
  · rw [if_neg fun hjoined => ?_]
    have hle := (h.bounds _ _ hjoined).2
    omega
  · rfl

theorem members_join (h : Ledger notes b) :
    b.join.members = (joinersOf b.join.epoch (notes ++ [.joined i b.join.epoch])).length := by
  have hof : joinersOf b.join.epoch [.joined i b.join.epoch] = [i] := by simp [joinersOf]
  rw [joinersOf_append, hof, List.length_append, List.length_singleton, Batch.join]
  split
  · rw [h.members_of_new (Nat.lt_succ_self _)]
    rfl
  · simp [h.members]

theorem epoch_join_pos (h : Ledger notes b) : 0 < b.join.epoch := by
  rw [epoch_join]
  split
  · omega
  · rename_i hne
    have hcount := h.outstanding
    obtain ⟨i, hi⟩ : ∃ i, i ∈ joiners notes := List.exists_mem_of_length_pos (by omega)
    obtain ⟨e, he⟩ := mem_joiners.mp hi
    have hbounds := h.bounds i e he
    omega

/-- A new epoch is open from its first member on. -/
theorem stillOpen_join (h : Ledger notes b) : StillOpen (notes ++ [.joined i b.join.epoch]) := by
  have hcount : joinCount (notes ++ [.joined i b.join.epoch]) ≠ 0 := by
    rw [h.joinCount_joined]
    exact Nat.succ_ne_zero _
  by_cases hzero : b.outstanding = 0
  · refine ⟨notes, i, [], by rw [epoch_joined], ?_, ?_⟩
    · rw [epoch_joined, epoch_join, if_pos hzero, mem_epochs]
      rintro ⟨i', hi'⟩
      have hle := (h.bounds i' _ hi').2
      omega
    · intro now hnow
      rw [List.prefix_nil.mp hnow, epoch_joined]
      exact hcount
  · refine (h.stillOpen hzero).append ?_ hcount
    rw [epoch_joined, epoch_join, if_neg hzero, h.epoch]

/-- A load joins that has not joined before. -/
theorem join (h : Ledger notes b) (hi : i ∉ joiners notes) :
    Ledger (notes ++ [.joined i b.join.epoch]) b.join where
  outstanding := by
    rw [joiners_joined, leavers_joined, outstanding_join, List.length_append,
      List.length_singleton, ← h.outstanding]
    omega
  epoch := (epoch_joined ..).symm
  members := h.members_join
  buffer := by
    rw [outstanding_join, if_neg (Nat.succ_ne_zero _), buffer_join, h.buffer, epoch_join,
      handedIn_joined _ _ fun hmem => hi (h.subset hmem)]
    split
    · exact (h.handedIn_of_new (Nat.lt_succ_self _)).symm
    · rfl
  bounds i' e hi' := by
    rcases (joined_mem_joined ..).mp hi' with hi' | ⟨-, rfl⟩
    · obtain ⟨hpos, hle⟩ := h.bounds i' e hi'
      exact ⟨hpos, hle.trans (epoch_le_join b)⟩
    · exact ⟨h.epoch_join_pos, le_rfl⟩
  inside i' e hi' hnot := by
    rw [leavers_joined] at hnot
    rcases (joined_mem_joined ..).mp hi' with hi' | ⟨-, rfl⟩
    · rw [h.inside i' e hi' hnot, epoch_join]
      split
      · rename_i hzero
        exact absurd (h.outstanding_eq_zero_iff.mp hzero (mem_joiners.mpr ⟨e, hi'⟩)) hnot
      · rfl
    · rfl
  stillOpen _ := h.stillOpen_join
  nodup_joiners := by
    rw [joiners_joined, ← List.concat_eq_append]
    exact h.nodup_joiners.concat hi
  nodup_leavers := by
    rw [leavers_joined]
    exact h.nodup_leavers
  subset := by
    rw [joiners_joined, leavers_joined]
    exact fun i' hi' => List.mem_append_left _ (h.subset hi')
  handed := by
    rw [handedOver_joined]
    intro closed hclosed
    obtain ⟨hle, hzero⟩ := h.handed closed hclosed
    refine ⟨hle.trans (epoch_le_join b), fun heq => ?_⟩
    rw [epoch_join] at heq
    split at heq
    · omega
    · rename_i hne
      exact absurd (hzero heq) hne
  ordered := by
    rw [handedOver_joined]
    exact h.ordered

/-! ## Leaving -/

theorem outstanding_pos (h : Ledger notes b) (hi : i ∈ joiners notes) (hnot : i ∉ leavers notes) :
    0 < b.outstanding := by
  rw [Nat.pos_iff_ne_zero]
  exact fun hzero => hnot (h.outstanding_eq_zero_iff.mp hzero hi)

/-- Who is in is in the current epoch. -/
theorem joined_of_inside (h : Ledger notes b) (hi : i ∈ joiners notes) (hnot : i ∉ leavers notes) :
    .joined i b.epoch ∈ notes := by
  obtain ⟨e, he⟩ := mem_joiners.mp hi
  exact h.inside i e he hnot ▸ he

/-- The last one takes the batch along and leaves an empty buffer. -/
theorem leave_eq (c : Contribution) (b : Batch) :
    c.leave b = if b.outstanding ≤ 1
      then (some ⟨b.epoch, b.members, b.buffer ++ c.text⟩, { b with outstanding := 0, buffer := [] })
      else (none, { b with outstanding := b.outstanding - 1, buffer := b.buffer ++ c.text }) := by
  rw [Contribution.leave, Batch.leave]
  by_cases hle : b.outstanding ≤ 1
  · have hzero : b.outstanding - 1 = 0 := by omega
    simp [hle, hzero]
  · have hpos : 0 < b.outstanding - 1 := by omega
    simp [hle, hpos]

section

variable (c : Contribution) (closed : Option ClosedBatch)

theorem joiners_left : joiners (notes ++ [.left i c closed]) = joiners notes := by
  rw [joiners_append]
  exact List.append_nil _

theorem joinersOf_left (e : Nat) :
    joinersOf e (notes ++ [.left i c closed]) = joinersOf e notes := by
  rw [joinersOf_append]
  exact List.append_nil _

theorem leavers_left : leavers (notes ++ [.left i c closed]) = leavers notes ++ [i] :=
  leavers_append ..

theorem epoch_left : Notes.epoch (notes ++ [.left i c closed]) = Notes.epoch notes :=
  epoch_of_not_joined rfl

theorem joined_mem_left {i' e : Nat} :
    .joined i' e ∈ notes ++ [.left i c closed] ↔ .joined i' e ∈ notes := by
  simp

/-- Who leaves hands in for the epoch it has joined. -/
theorem handedIn_left (h : Ledger notes b) (hi : i ∈ joiners notes) (hnot : i ∉ leavers notes)
    (e : Nat) : handedIn e (notes ++ [.left i c closed]) =
      handedIn e notes ++ if e = b.epoch then c.text else [] := by
  rw [handedIn_append fun i' _ => by simp, List.flatMap_singleton]
  congr 1
  have hjoined := h.joined_of_inside hi hnot
  by_cases he : e = b.epoch
  · subst he
    cases c with
    | source t => simp [hjoined, Contribution.text]
    | failure fault => simp [Contribution.text]
  · have hnever : .joined i e ∉ notes := fun hmem => he (h.epoch_unique hmem hjoined)
    cases c with
    | source t => simp [hnever, he]
    | failure fault => simp [he]

end

/-- What the last one takes along is the work of its epoch. -/
theorem closed (h : Ledger notes b) (hi : i ∈ joiners notes) (hnot : i ∉ leavers notes)
    (c : Contribution) :
    ((c.leave b).1.isSome ↔ ∀ j ∈ joiners notes, j = i ∨ j ∈ leavers notes) ∧
      ∀ batch, (c.leave b).1 = some batch → batch.epoch = b.epoch ∧
        batch.members = (joinersOf b.epoch notes).length ∧
        batch.source = handedIn b.epoch (notes ++ [.left i c (some batch)]) := by
  have hpos := h.outstanding_pos hi hnot
  have hcount := h.outstanding
  constructor
  · have hnodup : (i :: leavers notes).Nodup := List.nodup_cons.mpr ⟨hnot, h.nodup_leavers⟩
    have hsubset : i :: leavers notes ⊆ joiners notes := List.cons_subset.mpr ⟨hi, h.subset⟩
    rw [leave_eq]
    constructor
    · intro hsome
      split at hsome
      · have hperm := (hnodup.subperm hsubset).perm_of_length_le (by rw [List.length_cons]; omega)
        exact fun j hj => List.mem_cons.mp (hperm.symm.subset hj)
      · cases hsome
    · intro hall
      have hle := (h.nodup_joiners.subperm fun j hj => List.mem_cons.mpr (hall j hj)).length_le
      rw [List.length_cons] at hle
      rw [if_pos (by omega)]
      rfl
  · intro batch hbatch
    rw [leave_eq] at hbatch
    split at hbatch
    · cases hbatch
      refine ⟨rfl, h.members, ?_⟩
      rw [handedIn_left _ _ h hi hnot, if_pos rfl, h.buffer, if_neg hpos.ne']
    · cases hbatch

theorem epoch_leave (c : Contribution) (b : Batch) : (c.leave b).2.epoch = b.epoch := by
  rw [leave_eq]
  split <;> rfl

theorem members_leave (c : Contribution) (b : Batch) : (c.leave b).2.members = b.members := by
  rw [leave_eq]
  split <;> rfl

theorem outstanding_leave (c : Contribution) (b : Batch) :
    (c.leave b).2.outstanding = b.outstanding - 1 := by
  rw [leave_eq]
  split
  · simp only
    omega
  · rfl

theorem closed_leave {c : Contribution} {closed : ClosedBatch} (h : (c.leave b).1 = some closed) :
    closed.epoch = b.epoch ∧ (c.leave b).2.outstanding = 0 := by
  rw [leave_eq] at h ⊢
  split at h
  · rename_i hle
    cases h
    rw [if_pos hle]
    exact ⟨rfl, rfl⟩
  · cases h

theorem handedOver_left (c : Contribution) (closed : Option ClosedBatch) :
    handedOver (notes ++ [.left i c closed]) = handedOver notes ++ closed.toList := by
  rw [handedOver_append]
  cases closed <;> rfl

/-- While somebody is in, the current epoch is not handed over. -/
theorem epoch_lt_of_inside (h : Ledger notes b) (hpos : 0 < b.outstanding) {closed : ClosedBatch}
    (hclosed : closed ∈ handedOver notes) : closed.epoch < b.epoch := by
  obtain ⟨hle, hzero⟩ := h.handed closed hclosed
  exact lt_of_le_of_ne hle fun heq => hpos.ne' (hzero heq)

/-- A member leaves that has not left before. -/
theorem leave (h : Ledger notes b) (hi : i ∈ joiners notes) (hnot : i ∉ leavers notes)
    (c : Contribution) : Ledger (notes ++ [.left i c (c.leave b).1]) (c.leave b).2 := by
  have hpos := h.outstanding_pos hi hnot
  constructor
  case outstanding =>
    have hcount := h.outstanding
    rw [leavers_left, joiners_left, outstanding_leave, List.length_append, List.length_singleton]
    omega
  case epoch => rw [epoch_leave, epoch_left, h.epoch]
  case members => rw [members_leave, epoch_leave, joinersOf_left, h.members]
  case buffer =>
    rw [epoch_leave, handedIn_left _ _ h hi hnot, if_pos rfl, leave_eq]
    split
    · rfl
    · rw [if_neg (by simp only; omega), h.buffer, if_neg hpos.ne']
  case bounds =>
    intro i' e hi'
    rw [epoch_leave]
    exact h.bounds i' e ((joined_mem_left ..).mp hi')
  case inside =>
    intro i' e hi' hnot'
    rw [leavers_left, List.mem_append, not_or] at hnot'
    rw [epoch_leave]
    exact h.inside i' e ((joined_mem_left ..).mp hi') hnot'.1
  case stillOpen =>
    intro hne
    refine (h.stillOpen hpos.ne').append (epoch_left ..) ?_
    rw [joinCount_left, ← h.outstanding_eq, ← outstanding_leave c]
    exact hne
  case nodup_joiners =>
    rw [joiners_left]
    exact h.nodup_joiners
  case nodup_leavers =>
    rw [leavers_left, ← List.concat_eq_append]
    exact h.nodup_leavers.concat hnot
  case subset =>
    rw [leavers_left, joiners_left]
    exact List.append_subset.mpr ⟨h.subset, List.cons_subset.mpr ⟨hi, List.nil_subset _⟩⟩
  case handed =>
    rw [handedOver_left, epoch_leave]
    intro closed hmem
    rcases List.mem_append.mp hmem with hmem | hmem
    · have hlt := h.epoch_lt_of_inside hpos hmem
      exact ⟨hlt.le, fun heq => absurd heq hlt.ne⟩
    · obtain ⟨heq, hzero⟩ := closed_leave (Option.mem_toList.mp hmem)
      exact ⟨heq.le, fun _ => hzero⟩
  case ordered =>
    rw [handedOver_left, List.pairwise_append]
    refine ⟨h.ordered, ?_, fun closed hmem closed' hmem' => ?_⟩
    · cases (c.leave b).1 with
      | none => exact .nil
      | some closed => exact List.pairwise_singleton _ _
    · rw [(closed_leave (Option.mem_toList.mp hmem')).1]
      exact h.epoch_lt_of_inside hpos hmem

end Ledger

end StyleBatch
