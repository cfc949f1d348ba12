import StyleBatch.Proofs.Pipeline.Link

/-!
# Epochs

The epochs of a run in terms of what was noted: who joins which one, when an epoch is handed over,
what is handed over with it and who returns the compiled text.

* `Ledger.not_joined_of_handed`: nobody joins an epoch that was handed over.
* `Reached.left`: what is known at the moment in which somebody leaves.
* `epochs_consistent`: all of it, for every run.
-/

namespace StyleBatch

open Notes Resolution

namespace Ledger

variable {notes : List Note} {b : Batch}

/-- Nobody joins an epoch that was handed over. -/
theorem not_joined_of_handed (h : Ledger notes b) {closed : ClosedBatch}
    (hclosed : closed ∈ handedOver notes) : b.join.epoch ≠ closed.epoch := by
  obtain ⟨hle, hzero⟩ := h.handed closed hclosed
  rw [epoch_join]
  split
  · omega
  · rename_i hne
    exact fun heq => hne (hzero heq.symm)

/-- An epoch is handed over once. -/
theorem handed_unique (h : Ledger notes b) {i j : Nat} {c c' : Contribution}
    {batch batch' : ClosedBatch} (hi : .left i c (some batch) ∈ notes)
    (hj : .left j c' (some batch') ∈ notes) (heq : batch.epoch = batch'.epoch) :
    i = j ∧ batch = batch' := by
  have hnodup : ((handedOver notes).map ClosedBatch.epoch).Nodup :=
    List.pairwise_map.mpr (h.ordered.imp fun hlt => hlt.ne)
  rw [handedOver, List.map_filterMap] at hnodup
  have hsame := eq_of_filterMap_nodup hnodup hi hj rfl (congrArg some heq.symm)
  injection hsame with hij _ hbatch
  exact ⟨hij, Option.some.inj hbatch⟩

end Ledger

namespace Pipeline

variable {setup : Setup} {allowed : Disk → Prop} {loads : List Load} {notes : List Note}
  {p : Pipeline}

/-- Nobody joins an epoch after it was handed over. -/
theorem Reached.not_joined_of_handed (h : Reached setup allowed loads notes p)
    {before after : List Note} {i : Nat} {c : Contribution} {batch : ClosedBatch}
    (heq : notes = before ++ .left i c (some batch) :: after) (j : Nat) :
    .joined j batch.epoch ∉ after := by
  intro hj
  obtain ⟨between, late, rfl⟩ := List.append_of_mem hj
  have hsplit : notes =
      (before ++ .left i c (some batch) :: between) ++ .joined j batch.epoch :: late := by
    rw [heq, List.append_assoc, List.cons_append]
  obtain ⟨loads', q, q', task, hq, hmove⟩ := h.exists_of_note hsplit
  refine hq.chronicle.ledger.not_joined_of_handed ?_ hmove.of_joined.symm
  exact mem_handedOver.mpr ⟨i, c, by simp⟩

/-- What is known when somebody leaves: the epoch that it has joined, whether it is the last one, and
what it takes along then. -/
theorem Reached.left (h : Reached setup allowed loads notes p) {before after : List Note} {i : Nat}
    {c : Contribution} {closed : Option ClosedBatch}
    (heq : notes = before ++ .left i c closed :: after) :
    i ∉ leavers before ∧ ∃ e, .joined i e ∈ before ∧
      (closed.isSome ↔ ∀ j ∈ joinersOf e notes, j = i ∨ j ∈ leavers before) ∧
      ∀ batch, closed = some batch → batch.epoch = e ∧
        batch.members = (joinersOf e notes).length ∧ batch.source = handedIn e notes := by
  obtain ⟨loads', q, q', task, hq, hmove⟩ := h.exists_of_note heq
  obtain ⟨hclosed, job, d, hi, hphase, hd, rfl⟩ := hmove.of_left
  obtain ⟨-, -, hjoined, hnot⟩ := hq.chronicle.inside hi hphase hd
  have hledger := hq.chronicle.ledger
  obtain ⟨hlast, hbatch⟩ := hledger.closed hjoined hnot d.contribution
  rw [← hclosed] at hlast hbatch
  have hsome : closed.isSome →
      ∃ batch, closed = some batch ∧ batch.epoch = q.batching.batch.epoch := by
    intro hsome
    obtain ⟨batch, hb⟩ := Option.isSome_iff_exists.mp hsome
    exact ⟨batch, hb, (hbatch batch hb).1⟩
  -- Once it is handed over, all of its members are known.
  have hafter : closed.isSome → ∀ j, .joined j q.batching.batch.epoch ∉ after := by
    intro h'
    obtain ⟨batch, hb, hepoch⟩ := hsome h'
    exact hepoch ▸ h.not_joined_of_handed (hb ▸ heq)
  have hmembers : closed.isSome →
      joinersOf q.batching.batch.epoch notes = joinersOf q.batching.batch.epoch before := by
    intro h'
    have hnone : joinersOf q.batching.batch.epoch (.left i d.contribution closed :: after) = [] := by
      refine List.eq_nil_iff_forall_not_mem.mpr fun j hj => ?_
      rcases List.mem_cons.mp (mem_joinersOf.mp hj) with hj | hj
      · cases hj
      · exact hafter h' j hj
    rw [heq, joinersOf_append, hnone, List.append_nil]
  have hall := hq.chronicle.ledger.joined_of_inside hjoined hnot
  refine ⟨hnot, _, hall, ⟨fun h' j hj => ?_, fun h' => hlast.mpr fun j hj => ?_⟩,
    fun batch hb => ?_⟩
  · rw [hmembers h'] at hj
    exact hlast.mp h' j (mem_joiners.mpr ⟨_, mem_joinersOf.mp hj⟩)
  · by_cases hleft : j ∈ leavers before
    · exact Or.inr hleft
    · refine h' j (mem_joinersOf.mpr ?_)
      rw [heq]
      exact List.mem_append_left _ (hledger.joined_of_inside hj hleft)
  · obtain ⟨hepoch, hcount, hsource⟩ := hbatch batch hb
    have hsome' : closed.isSome := Option.isSome_iff_exists.mpr ⟨batch, hb⟩
    refine ⟨hepoch, by rw [hmembers hsome', hcount], ?_⟩
    -- Who leaves later has not joined this epoch, so nothing is handed in for it any more.
    have hnodup : (leavers notes).Nodup := h.chronicle.ledger.nodup_leavers
    have hsplit : notes = (before ++ [.left i d.contribution closed]) ++ after := by
      rw [heq, List.append_assoc]
      rfl
    rw [hsource, ← hb, hsplit, handedIn_append fun j _ => hafter hsome' j, List.self_eq_append_right,
      List.flatMap_eq_nil_iff]
    intro note hnote
    split
    · rename_i j t closed'
      refine if_neg fun hj => ?_
      have hbefore : .joined j q.batching.batch.epoch ∈ before := by
        rcases List.mem_append.mp hj with hj | hj
        · simpa using hj
        · exact absurd hj (hafter hsome' j)
      have hgone : j ∈ leavers (before ++ [.left i d.contribution closed]) := by
        rw [leavers_append, List.mem_append]
        exact (hlast.mp hsome' j (mem_joiners.mpr ⟨_, hbefore⟩)).symm.imp id List.mem_singleton.mpr
      rw [hsplit, leavers_append] at hnodup
      exact (List.nodup_append.mp hnodup).2.2 j hgone j (mem_leavers.mpr ⟨_, _, hnote⟩) rfl
    · rfl

/-- A load that returns a text that is not empty has taken its batch along and had it compiled. -/
theorem Reached.compiled (h : Reached setup allowed loads notes p) {i e : Nat} {t : Text}
    (hjoined : .joined i e ∈ notes) (ho : p.outcome? i = some (.ok t)) (ht : t ≠ []) :
    ∃ source batch, .left i (.source source) (some batch) ∈ notes ∧ Compiled notes i batch.source t := by
  rw [outcome?] at ho
  split at ho
  · rename_i load mode o hi
    cases ho
    have hcourse := h.chronicle.job i _ hi
    have hown : .joined i e ∈ about i notes := mem_about.mpr ⟨hjoined, rfl⟩
    rcases hcourse with hnone | hdeferred | ⟨e', d, text, rest, hd, heq, hcourse, ho⟩
    · rw [hnone] at hown
      cases hown
    · rw [hdeferred] at hown
      cases List.mem_singleton.mp hown
    · rw [Departure.Course, hd] at hcourse
      obtain ⟨closed, rest', rfl, hgave⟩ := hcourse
      rw [answerOf] at ho
      cases hc : d.contribution with
      | failure fault =>
        rw [hc] at ho
        cases ho
      | source s =>
        rw [hc] at ho heq
        cases ho
        obtain ⟨batch, rfl, report, rfl, hfailure, hreport⟩ := hgave ht
        refine ⟨s, batch, mem_of_about heq (by simp), mem_of_about heq (by simp), report,
          mem_of_about heq (by simp), hfailure, hreport⟩
  · cases ho

/-- What is said about the epochs of a run. -/
structure Orderly (notes : List Note) (p : Pipeline) : Prop where
  /-- A load joins the current epoch as long as the join-count has not been zero since that was
  opened, and opens the next one otherwise. -/
  joined : ∀ before i e after, notes = before ++ .joined i e :: after →
    (StillOpen before → e = epoch before) ∧ (¬StillOpen before → e = epoch before + 1)
  /-- Who leaves has joined one epoch and has not left before, and hands in what its inlining has
  ended with.  It takes the epoch along when all other members, the later ones too, have left. -/
  left : ∀ before i c closed after, notes = before ++ .left i c closed :: after →
    i ∉ leavers before ∧ EndsIn p.resolution i c.outcome ∧ ∃ e, .joined i e ∈ before ∧
      (∀ e', .joined i e' ∈ notes → e' = e) ∧
      (closed.isSome ↔ ∀ j ∈ joinersOf e notes, j = i ∨ j ∈ leavers before) ∧
      ∀ batch, closed = some batch → batch.epoch = e ∧
        batch.members = (joinersOf e notes).length ∧ batch.source = handedIn e notes
  /-- Epochs are handed over one after the other, each of them once. -/
  handedOver : (handedOver notes).Pairwise fun batch batch' => batch.epoch < batch'.epoch
  outstanding : p.batching.batch.outstanding = joinCount notes
  buffer : joinCount notes = 0 → p.batching.batch.buffer = []
  /-- One member returns a text that is not empty: what has come of compiling the epoch. -/
  returned : ∀ i e t, .joined i e ∈ notes → p.outcome? i = some (.ok t) → t ≠ [] →
    (∀ j t', .joined j e ∈ notes → p.outcome? j = some (.ok t') → t' ≠ [] → j = i) ∧
      ∃ source batch, .left i (.source source) (some batch) ∈ notes ∧ batch.epoch = e ∧
        Compiled notes i batch.source t

/-- In every run, however the loads, the ends of compiles and the changes on the disk come between
each other, the epochs are orderly. -/
theorem epochs_consistent (h : Reached setup allowed loads notes p) : Orderly notes p := by
  have hledger := h.chronicle.ledger
  -- The epoch of what a member takes along is the one that it has joined.
  have hepoch : ∀ {i e c batch}, .joined i e ∈ notes → .left i c (some batch) ∈ notes →
      batch.epoch = e := by
    intro i e c batch hjoined hleft
    obtain ⟨before, after, heq⟩ := List.append_of_mem hleft
    obtain ⟨-, e', hjoined', -, hbatch⟩ := h.left heq
    rw [(hbatch batch rfl).1]
    exact hledger.epoch_unique (heq ▸ List.mem_append_left _ hjoined') hjoined
  refine ⟨fun before i e after heq => ?_, fun before i c closed after heq => ?_, hledger.ordered,
    hledger.outstanding_eq, fun hzero => ?_, fun i e t hjoined ho ht => ?_⟩
  · obtain ⟨loads', q, q', task, hq, hmove⟩ := h.exists_of_note heq
    have hbefore := hq.chronicle.ledger
    rw [hmove.of_joined, hbefore.stillOpen_iff, Ledger.epoch_join, ← hbefore.epoch]
    exact ⟨fun hne => if_neg hne, fun hzero => if_pos (not_not.mp hzero)⟩
  · obtain ⟨hnot, e, hjoined, hrest⟩ := h.left heq
    refine ⟨hnot, h.linked.left i c closed ?_, e, hjoined, fun e' hjoined' => ?_, hrest⟩
    · rw [heq]
      simp
    · exact hledger.epoch_unique hjoined' (heq ▸ List.mem_append_left _ hjoined)
  · rw [hledger.buffer, if_pos (hledger.outstanding_eq.trans hzero)]
  · obtain ⟨source, batch, hleft, hcompiled⟩ := h.compiled hjoined ho ht
    refine ⟨fun j t' hjoined' ho' ht' => ?_, source, batch, hleft, hepoch hjoined hleft, hcompiled⟩
    obtain ⟨source', batch', hleft', -⟩ := h.compiled hjoined' ho' ht'
    have hsame : batch'.epoch = batch.epoch :=
      (hepoch hjoined' hleft').trans (hepoch hjoined hleft).symm
    exact (hledger.handed_unique hleft' hleft hsame).1

/-- A packaging step that compiles to the source itself. -/
def echoSetup (files : Table Text Text) : Setup where
  config := { environment := .packagingStep, batch := ⟨1, false⟩ }
  loader := .memory files [] none 0
  compiler := ⟨.echo [] none, []⟩
  disk := ⟨[], []⟩

/-- Three loads that overlap, one of which fails, and a late one. -/
def staggeredLoads : List (Load × Nat) :=
  [(⟨"s/x", "@import \"a\";", []⟩, 0), (⟨"s/y", "q", []⟩, 0), (⟨"s/z", "@import \"b\";", []⟩, 0),
    (⟨"s/w", "r", []⟩, 30)]

theorem epochs_consistent_staggered :
    let run := play (echoSetup [("s/_a.scss", "x")]) staggeredLoads 60
    Orderly run.1 run.2 ∧ handedOver run.1 = [⟨1, 3, "qx;"⟩, ⟨2, 1, "r"⟩] ∧
      run.2.outcome? 0 = some (.ok "qx;") ∧ run.2.outcome? 1 = some (.ok []) ∧
      run.2.outcome? 3 = some (.ok "r") := by
  refine ⟨epochs_consistent (reached_play _ _ (fun _ => trivial) 60), ?_, ?_, ?_, ?_⟩
  all_goals decide +kernel

end Pipeline

end StyleBatch
