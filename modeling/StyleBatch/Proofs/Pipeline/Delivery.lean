import StyleBatch.Proofs.Pipeline.Epochs
import StyleBatch.Proofs.Resolution.Inlined

/-!
# What is handed over

Whoever is complete leaves its source in the batch, and whoever is last takes the batch along, so
what was handed over is what was handed in.  An import that several loads share is in the source of
its first requester alone.  It is handed over with that, or not at all when the first requester
fails for another reason.

* `Delivered.move`: what was handed in is handed over or in the buffer.
* `Reached.owner`: who requested an import first has joined no later epoch.
* `imports_handed_over`: an import of a complete load is handed over with its batch or before,
  unless its first requester has failed.
-/

namespace StyleBatch

open Notes Resolution

namespace Notes

/-- What was handed in, in the order of leaving. -/
def handed (notes : List Note) : Text :=
  notes.flatMap fun
    | .left _ c _ => c.text
    | _ => []

/-- What the batches hold that were taken along. -/
def delivered (notes : List Note) : Text :=
  (handedOver notes).flatMap ClosedBatch.source

theorem handed_append (notes more : List Note) :
    handed (notes ++ more) = handed notes ++ handed more :=
  List.flatMap_append

theorem delivered_append (notes more : List Note) :
    delivered (notes ++ more) = delivered notes ++ delivered more := by
  rw [delivered, handedOver_append, List.flatMap_append, delivered, delivered]

/-- A member's source is in what is handed in for its epoch. -/
theorem infix_handedIn {notes : List Note} {i e : Nat} {t : Text} {closed : Option ClosedBatch}
    (hjoined : .joined i e ∈ notes) (hleft : .left i (.source t) closed ∈ notes) :
    t <:+: handedIn e notes := by
  rw [handedIn, List.flatMap_def]
  refine List.infix_of_mem_flatten (List.mem_map.mpr ⟨_, hleft, ?_⟩)
  exact if_pos hjoined

end Notes

namespace Pipeline

/-- What a move does to the batch. -/
inductive Counted (b : Batch) : List Note → Batch → Prop
  | same {more : List Note} {b' : Batch} : SameCounts b b' → (∀ note ∈ more, Idle note) →
      Counted b more b'
  | joined (i : Nat) : Counted b [.joined i b.join.epoch] b.join
  | left {b' : Batch} (i : Nat) (c : Contribution) : SameCounts (c.leave b).2 b' →
      Counted b [.left i c (c.leave b).1] b'

theorem Move.counted {p p' : Pipeline} {task : Task} {note : Option Note}
    (h : Move p task note p') : Counted p.batching.batch note.toList p'.batching.batch := by
  cases h with
  | deferred _ _ _ hsame =>
    refine .same hsame fun x hx => ?_
    rw [List.mem_singleton.mp hx]
    exact trivial
  | joined => exact .joined _
  | left _ _ _ hsame => exact .left _ _ hsame
  | compiling =>
    refine .same (.refl _) fun x hx => ?_
    exact (Invocation.note_idle (Option.mem_toList.mp hx)).1
  | compiled _ _ _ _ hsame => exact .same hsame nofun
  | _ => exact .same (.refl _) nofun

/-- Nothing that was handed in is lost, and no epoch either. -/
structure Delivered (notes : List Note) (b : Batch) : Prop where
  sources : delivered notes ++ b.buffer = handed notes
  /-- An epoch that was joined is open or was handed over. -/
  epochs : ∀ i e, .joined i e ∈ notes →
    (e = b.epoch ∧ b.outstanding ≠ 0) ∨ ∃ closed ∈ handedOver notes, closed.epoch = e

namespace Delivered

variable {notes more : List Note} {b b' : Batch}

theorem move (h : Delivered notes b) (hcounted : Counted b more b') :
    Delivered (notes ++ more) b' := by
  have hkept : ∀ {e : Nat}, (∃ closed ∈ handedOver notes, closed.epoch = e) →
      ∃ closed ∈ handedOver (notes ++ more), closed.epoch = e := by
    rintro e ⟨closed, hclosed, he⟩
    rw [handedOver_append]
    exact ⟨closed, List.mem_append_left _ hclosed, he⟩
  cases hcounted with
  | same hsame hidle =>
    have hhanded : handed more = [] := by
      refine List.flatMap_eq_nil_iff.mpr fun note hnote => ?_
      cases note <;> first | rfl | exact (hidle _ hnote).elim
    have hover : handedOver more = [] := by
      refine List.filterMap_eq_nil_iff.mpr fun note hnote => ?_
      cases note <;> first | rfl | exact (hidle _ hnote).elim
    have hdelivered : delivered more = [] := by rw [delivered, hover, List.flatMap_nil]
    refine ⟨?_, fun i e hi => ?_⟩
    · rw [delivered_append, handed_append, hhanded, hdelivered, List.append_nil, List.append_nil,
        hsame.buffer, h.sources]
    · rcases List.mem_append.mp hi with hi | hi
      · rw [hsame.epoch, hsame.outstanding]
        exact (h.epochs i e hi).imp_right hkept
      · exact (hidle _ hi).elim
  | joined i =>
    refine ⟨?_, fun i' e hi' => ?_⟩
    · rw [delivered_append, handed_append, Ledger.buffer_join]
      simpa [handed, delivered, handedOver] using h.sources
    · have hopen : b.join.outstanding ≠ 0 := by
        rw [Ledger.outstanding_join]
        exact Nat.succ_ne_zero _
      rcases List.mem_append.mp hi' with hi' | hi'
      · refine (h.epochs i' e hi').imp (fun ⟨he, hne⟩ => ⟨?_, hopen⟩) hkept
        rw [he, Ledger.epoch_join, if_neg hne]
      · injection List.mem_singleton.mp hi' with _ he
        exact Or.inl ⟨he, hopen⟩
  | left i c hsame =>
    refine ⟨?_, fun i' e hi' => ?_⟩
    · have hhanded : handed [.left i c (c.leave b).1] = c.text := List.flatMap_singleton ..
      have hgone : delivered [.left i c (c.leave b).1] ++ (c.leave b).2.buffer =
          b.buffer ++ c.text := by
        rw [Ledger.leave_eq]
        split
        · simp [delivered, handedOver]
        · simp [delivered, handedOver]
      rw [delivered_append, handed_append, hsame.buffer, List.append_assoc, hgone, hhanded,
        ← List.append_assoc, h.sources]
    · rcases List.mem_append.mp hi' with hi' | hi'
      · rcases h.epochs i' e hi' with ⟨rfl, -⟩ | hclosed
        · rw [hsame.epoch, hsame.outstanding, handedOver_append, Ledger.leave_eq]
          split
          · exact Or.inr ⟨_, List.mem_append_right _ List.mem_cons_self, rfl⟩
          · refine Or.inl ⟨rfl, ?_⟩
            simp only
            omega
        · exact Or.inr (hkept hclosed)
      · cases List.mem_singleton.mp hi'

end Delivered

variable {setup : Setup} {allowed : Disk → Prop} {loads : List Load} {notes : List Note}
  {p : Pipeline}

theorem Reached.delivered (h : Reached setup allowed loads notes p) :
    Delivered notes p.batching.batch := by
  induction h with
  | start => exact ⟨rfl, fun _ _ hi => nomatch hi⟩
  | submit mode load delay _ ih => exact ih
  | poll _ hcan _ ih => exact ih.move (move_of_canStep hcan).counted
  | elsewhere disk kind _ _ ih => exact ih

/-- An epoch that is no later than one that was handed over was handed over, and all of its members
have left. -/
theorem Reached.handed_over (h : Reached setup allowed loads notes p) {batch : ClosedBatch}
    (hbatch : batch ∈ handedOver notes) {i e : Nat} (hjoined : .joined i e ∈ notes)
    (hle : e ≤ batch.epoch) : ∃ batch' ∈ handedOver notes, batch'.epoch = e ∧
      batch'.source = handedIn e notes ∧ ∃ c closed, .left i c closed ∈ notes := by
  have hledger := h.chronicle.ledger
  obtain ⟨batch', hbatch', rfl⟩ : ∃ batch' ∈ handedOver notes, batch'.epoch = e := by
    rcases h.delivered.epochs i e hjoined with ⟨rfl, hne⟩ | hclosed
    · obtain ⟨hle', hzero⟩ := hledger.handed batch hbatch
      exact absurd (hzero (le_antisymm hle' hle)) hne
    · exact hclosed
  obtain ⟨j, c, hleft⟩ := mem_handedOver.mp hbatch'
  obtain ⟨before, after, heq⟩ := List.append_of_mem hleft
  obtain ⟨-, e, -, hlast, hsource⟩ := h.left heq
  obtain ⟨rfl, -, hsource⟩ := hsource batch' rfl
  refine ⟨batch', hbatch', rfl, hsource, mem_leavers.mp ?_⟩
  rw [heq, leavers_append, List.mem_append]
  rcases hlast.mp rfl i (mem_joinersOf.mpr hjoined) with rfl | hi
  · exact Or.inr List.mem_cons_self
  · exact Or.inl hi

/-- No task of the resolution is lost. -/
theorem Reached.later_step (h : Reached setup setup.library.SameOn loads notes p) {task : Task}
    (hcan : CanStep p task) : Later p.resolution (step task p).resolution := by
  rcases (move_of_canStep hcan).resolution_cases with ⟨t, ht, heq⟩ |
    ⟨i, job, world, -, -, heq⟩ | ⟨world, heq⟩
  · rw [heq]
    exact (transition_of_canStep h.resolution.coherent.1 ht).later
  · rw [heq]
    have hworld : Later p.resolution { p.resolution with world } := .of_eq rfl rfl
    exact hworld.trans (.begin _ job.load)
  · rw [heq]
    exact .of_eq rfl rfl

/-- Who requested an import of a complete load first has joined no later epoch than that, or is
inlined outside all batches. -/
theorem Reached.owner (h : Reached setup setup.library.SameOn loads notes p)
    (hplain : setup.library.Plain loads) {i e : Nat} {load : Load} {source : Text}
    {closed : Option ClosedBatch} (hload : loads[i]? = some load) (hjoined : .joined i e ∈ notes)
    (hleft : .left i (.source source) closed ∈ notes) {l : Location}
    (hl : setup.library.Reachable [load] l) :
    ∃ t text, p.resolution.location? l = some t ∧ t.phase = .settled (.ok text) ∧
      ((∃ e' ≤ e, .joined t.load e' ∈ notes) ∨
        (p.jobs.map Job.mode)[t.load]? = some .inline) := by
  obtain ⟨before, after, heq⟩ := List.append_of_mem hleft
  obtain ⟨loads', q, q', task, hprefix, hq, hmove, hq', hlater, hmodes⟩ := h.exists_of_split
    (R := fun q p => Later q.resolution p.resolution ∧ q.jobs.map Job.mode <+: p.jobs.map Job.mode)
    (fun q => ⟨.refl _, List.prefix_rfl⟩)
    (fun q p mode load delay ⟨hlater, hmodes⟩ => by
      refine ⟨hlater.trans (.of_eq rfl rfl), hmodes.trans ?_⟩
      rw [Pipeline.submit, List.map_append]
      exact List.prefix_append ..)
    (fun q loads notes p task hp hcan ⟨hlater, hmodes⟩ =>
      ⟨hlater.trans (hp.later_step hcan), (move_of_canStep hcan).modes ▸ hmodes⟩)
    (fun q p disk kind ⟨hlater, hmodes⟩ => ⟨hlater.trans (.of_eq rfl rfl), hmodes⟩) heq
  obtain ⟨more, rfl⟩ := hprefix
  -- When the load leaves, its imports are settled, so their first requesters have begun.
  obtain ⟨k, hk⟩ := hq'.linked.left i (.source source) closed (by simp)
  have hsound := hq'.resolution.sound
  have hload' : loads'[i]? = some load := by
    obtain ⟨load', hload', -⟩ := hsound.inlinings k i _ hk
    rw [getElem?_append_of_eq_some hload' more] at hload
    rw [hload', hload]
  have hall : ∀ load' ∈ [load], ∃ n : Nat, loads'[n]? = some load' ∧ Succeeded q'.resolution n :=
    fun load' hmem => ⟨i, List.mem_singleton.mp hmem ▸ hload', k, source, hk⟩
  obtain ⟨text, ho⟩ := hsound.outcome_of_reachable_from hplain.of_append hall hl
  obtain ⟨t, ht, hphase⟩ := locationOutcome?_eq_some.mp ho
  obtain ⟨phase, ht', hphase'⟩ := hlater.location l t ht
  refine ⟨{ t with phase }, text, ht', hphase' _ hphase, ?_⟩
  obtain ⟨n, phase, hn, -⟩ := hsound.staged_of_location ht
  have hinlining : t.load ∈ q'.resolution.inlinings.map Inlining.load :=
    List.mem_map_of_mem (List.mem_of_getElem? hn)
  rcases hq'.joined_of_inlining _ hinlining with ⟨e', he'⟩ | hmode
  · refine Or.inl ⟨e', ?_, ?_⟩
    · -- The epoch that the load leaves is the current one.
      have hbefore : .joined t.load e' ∈ before := by simpa using he'
      have hledger := hq.chronicle.ledger
      obtain ⟨hnot, e₀, hjoined', -⟩ := h.left heq
      have hsame : e₀ = e := by
        refine h.chronicle.ledger.epoch_unique ?_ hjoined
        rw [heq]
        exact List.mem_append_left _ hjoined'
      rw [← hsame, hledger.inside i e₀ hjoined' hnot]
      exact (hledger.bounds t.load e' hbefore).2
    · rw [heq, ← List.singleton_append, ← List.append_assoc]
      exact List.mem_append_left _ he'
  · obtain ⟨more', heq'⟩ := hmodes
    rw [← heq']
    exact Or.inr (getElem?_append_of_eq_some hmode more')

/-- When the batch of a complete load is handed over, the text of each of its imports is in it or in
one that was handed over before, unless the load that requested the import first has failed, or is
inlined outside all batches. -/
theorem imports_handed_over (hclean : setup.library.Clean loads)
    (h : Reached setup setup.library.SameOn loads notes p) {i : Nat} {load : Load} {source : Text}
    {closed : Option ClosedBatch} {batch : ClosedBatch} (hload : loads[i]? = some load)
    (hleft : .left i (.source source) closed ∈ notes) (hjoined : .joined i batch.epoch ∈ notes)
    (hbatch : batch ∈ handedOver notes) {l : Location} (hl : setup.library.Reachable [load] l) :
    ∃ raw t, setup.library.fetch l = .ok raw ∧ p.resolution.location? l = some t ∧
      ((∃ batch' ∈ handedOver notes, batch'.epoch ≤ batch.epoch ∧
          Library.Carries batch'.source raw) ∨
        (∃ fault closed', .left t.load (.failure fault) closed' ∈ notes) ∨
        (p.jobs.map Job.mode)[t.load]? = some .inline) := by
  have hplain := hclean.barless.plain
  obtain ⟨t, text, ht, hphase, howner⟩ := h.owner hplain hload hjoined hleft hl
  have ho : locationOutcome? p.resolution l = some (.ok text) :=
    locationOutcome?_eq_some.mpr ⟨t, ht, hphase⟩
  obtain ⟨raw, hfetch, -⟩ := h.resolution.sound.finished_of_outcome ht ho
  refine ⟨raw, t, hfetch, ht, ?_⟩
  rcases howner with ⟨e, hle, hjoined'⟩ | hmode
  · obtain ⟨batch', hbatch', rfl, hsource, c, closed', hleft'⟩ :=
      h.handed_over hbatch hjoined' hle
    cases c with
    | failure fault => exact Or.inr (Or.inl ⟨fault, closed', hleft'⟩)
    | source source' =>
      obtain ⟨k, hk⟩ := h.linked.left _ _ _ hleft'
      have hentered : Entered p.resolution t.load l := ⟨t, ht, rfl, by rw [hphase]; rfl⟩
      obtain ⟨raw', hfetch', ts, hlength, hinfix⟩ := h.resolution.carries hclean hk hentered
      rw [hfetch] at hfetch'
      cases hfetch'
      refine Or.inl ⟨batch', hbatch', hle, ts, hlength, hinfix.trans ?_⟩
      rw [hsource]
      exact infix_handedIn hjoined' hleft'
  · exact Or.inr (Or.inr hmode)

/-- One file, which loads share. -/
def sharedSetup : Setup :=
  echoSetup [("s/_a.scss", "x")]

theorem reachable_shared :
    sharedSetup.library.Reachable [⟨"s/y", "@import \"a\";y", []⟩] ⟨"s/_a.scss"⟩ := by
  refine .direct List.mem_cons_self ⟨[⟨⟨"s/|./_a.scss"⟩, "./_a.scss"⟩], ?_, _,
    List.mem_singleton.mpr rfl, ?_⟩
  · decide +kernel
  · decide +kernel

/-- Two loads with a batch each. -/
def sharedLoads : List (Load × Nat) :=
  [(⟨"s/x", "@import \"a\";", []⟩, 0), (⟨"s/y", "@import \"a\";y", []⟩, 30)]

/-- A load left without a source. -/
def leftWithout : Note → Bool
  | .left _ (.failure _) _ => true
  | _ => false

/-- The import of the second one is handed over with the first batch. -/
theorem imports_handed_over_shared :
    let run := play sharedSetup sharedLoads 60
    handedOver run.1 = [⟨1, 1, "x;"⟩, ⟨2, 1, ";y"⟩] ∧
      ∃ batch ∈ handedOver run.1, batch.epoch ≤ 2 ∧ Library.Carries batch.source "x" := by
  intro run
  have hclean : sharedSetup.library.Clean (sharedLoads.map Prod.fst) :=
    Library.clean_memory (by decide) (by decide) (by decide) (by decide)
  have hreached : Reached sharedSetup sharedSetup.library.SameOn (sharedLoads.map Prod.fst) run.1
      run.2 := reached_play _ _ (fun _ => ⟨fun _ => rfl, fun _ => rfl⟩) 60
  have hover : handedOver run.1 = [⟨1, 1, "x;"⟩, ⟨2, 1, ";y"⟩] := by decide +kernel
  have hload : (sharedLoads.map Prod.fst)[1]? = some ⟨"s/y", "@import \"a\";y", []⟩ := rfl
  have hleft : .left 1 (.source ";y") (some ⟨2, 1, ";y"⟩) ∈ run.1 := by decide +kernel
  have hjoined : .joined 1 (ClosedBatch.mk 2 1 ";y").epoch ∈ run.1 := by decide +kernel
  have hbatch : ⟨2, 1, ";y"⟩ ∈ handedOver run.1 := by
    rw [hover]
    decide
  refine ⟨hover, ?_⟩
  obtain ⟨raw, t, hfetch, -, hdelivered | ⟨fault, closed, hfailed⟩ | hmode⟩ :=
    imports_handed_over hclean hreached hload hleft hjoined hbatch reachable_shared
  · cases hfetch
    exact hdelivered
  · have hcomplete : run.1.any leftWithout = false := by decide +kernel
    have hany : run.1.any leftWithout = true := List.any_eq_true.mpr ⟨_, hfailed, rfl⟩
    rw [hcomplete] at hany
    cases hany
  · have hmodes : run.2.jobs.map Job.mode = [.translate, .translate] := by decide +kernel
    have hmem := List.mem_of_getElem? hmode
    rw [hmodes] at hmem
    exact absurd hmem (by decide)

/-- Two loads in one batch, the first of which fails for another reason. -/
def brokenLoads : List (Load × Nat) :=
  [(⟨"s/x", "@import \"a\";@import \"b\";", []⟩, 0), (⟨"s/y", "@import \"a\";y", []⟩, 0)]

/-- The import of the second one is handed over with no batch. -/
theorem imports_lost_with_first :
    let run := play sharedSetup brokenLoads 60
    Reached sharedSetup sharedSetup.library.SameOn (brokenLoads.map Prod.fst) run.1 run.2 ∧
      .joined 1 1 ∈ run.1 ∧ .left 1 (.source ";y") (some ⟨1, 2, ";y"⟩) ∈ run.1 ∧
      sharedSetup.library.Reachable [⟨"s/y", "@import \"a\";y", []⟩] ⟨"s/_a.scss"⟩ ∧
      sharedSetup.library.fetch ⟨"s/_a.scss"⟩ = .ok "x" ∧
      ∀ batch ∈ handedOver run.1, ¬Library.Carries batch.source "x" := by
  refine ⟨reached_play _ _ (fun _ => ⟨fun _ => rfl, fun _ => rfl⟩) 60, ?_, ?_, reachable_shared,
    rfl, ?_⟩
  · decide +kernel
  · decide +kernel
  · have hover : handedOver (play sharedSetup brokenLoads 60).1 = [⟨1, 2, ";y"⟩] := by
      decide +kernel
    rw [hover]
    intro batch hbatch hcarries
    rw [List.mem_singleton.mp hbatch] at hcarries
    exact absurd (hcarries.isInfix (by decide +kernel)) (by decide +kernel)

end Pipeline

end StyleBatch
