import Mathlib.Data.List.Nodup
import StyleBatch.Proofs.Resolution.Success

/-!
# Every location is fetched once

The addresses that were fetched are those of the locations whose tasks have moved, each once
(`FetchedOnce`).  A location's task is never replaced, so this is kept by every transition,
whatever the shape of the import graph.

* `fetched_once`: no location is fetched twice, and when all loads succeed, the locations that
  are fetched are the reachable ones.  This needs base paths without a bar.
* `fetched_elsewhere`: with a bar in a base path, a load may succeed with another file's text.
-/

namespace StyleBatch.Resolution

/-- A location whose text has been asked for. -/
def Requested (r : Resolution) (l : Location) : Prop :=
  ∃ t, r.location? l = some t ∧ t.phase ≠ .queued

/-- What was fetched are the requested locations, each once. -/
structure FetchedOnce (r : Resolution) : Prop where
  nodup : r.fetched.Nodup
  mem_iff : ∀ l : Location, l.text ∈ r.fetched ↔ Requested r l

section Requested

variable {r : Resolution} {l : Location} {t : LocationTask}

theorem requested_setLocation (hl : r.location? l = some t) (ht : t.phase ≠ .queued)
    {phase : LocationPhase} (hphase : phase ≠ .queued) (l' : Location) :
    Requested (r.setLocation l t phase) l' ↔ Requested r l' := by
  rw [Requested, Requested, location?_setLocation]
  split
  · rename_i hll'
    subst hll'
    exact ⟨fun _ => ⟨t, hl, ht⟩, fun _ => ⟨_, rfl, hphase⟩⟩
  · rfl

theorem requested_setBranch (r : Resolution) (owner : Owner) (j : Nat) (phase : BranchPhase)
    (l' : Location) : Requested (r.setBranch owner j phase) l' ↔ Requested r l' := by
  rcases setBranch_cases r owner j phase with heq | ⟨_, _, _, _, _, heq⟩ |
    ⟨_, _, _, _, _, hl, hphase, heq⟩
  · rw [heq]
  · rw [heq]
    rfl
  · rw [heq]
    refine requested_setLocation hl ?_ ?_ l'
    · rw [hphase]
      exact nofun
    · exact nofun

end Requested

namespace FetchedOnce

variable {r r' : Resolution}

theorem congr (h : FetchedOnce r) (hfetched : r'.fetched = r.fetched)
    (hrequested : ∀ l, Requested r' l ↔ Requested r l) : FetchedOnce r' :=
  ⟨hfetched ▸ h.nodup, fun l => by rw [hfetched, h.mem_iff, hrequested]⟩

/-- A location that is asked for takes another phase. -/
theorem setLocation (h : FetchedOnce r) {l : Location} {t : LocationTask}
    (hl : r.location? l = some t) (ht : t.phase ≠ .queued) {phase : LocationPhase}
    (hphase : phase ≠ .queued) : FetchedOnce (r.setLocation l t phase) :=
  h.congr rfl (requested_setLocation hl ht hphase)

theorem setBranch (h : FetchedOnce r) (owner : Owner) (j : Nat) (phase : BranchPhase) :
    FetchedOnce (r.setBranch owner j phase) :=
  h.congr (fetched_setBranch ..) (requested_setBranch r owner j phase)

/-- A location that nobody has asked for is fetched. -/
theorem request (h : FetchedOnce r) {l : Location} {t : LocationTask}
    (hl : r.location? l = some t) (ht : t.phase = .queued) (pause : Pause Outcome)
    (calls : DiskCalls) : FetchedOnce (Resolution.setLocation
      { r with calls, fetched := r.fetched ++ [l.text] } l t (.fetching pause)) := by
  have hnew : l.text ∉ r.fetched := by
    rw [h.mem_iff]
    rintro ⟨t', hl', ht'⟩
    rw [hl] at hl'
    cases hl'
    exact ht' ht
  constructor
  · refine List.Nodup.append h.nodup (List.nodup_singleton _) ?_
    rw [List.disjoint_singleton]
    exact hnew
  · intro l'
    rw [Requested, location?_setLocation]
    show l'.text ∈ r.fetched ++ [l.text] ↔ _
    rw [List.mem_append, List.mem_singleton, h.mem_iff]
    split
    · rename_i hll'
      subst hll'
      exact ⟨fun _ => ⟨_, rfl, nofun⟩, fun _ => Or.inr rfl⟩
    · rename_i hll'
      constructor
      · rintro (hold | htext)
        · exact hold
        · exact absurd (by cases l; cases l'; simp_all) hll'
      · exact fun hold => Or.inl hold

theorem transition (h : FetchedOnce r) {lib : Library} {task : Task}
    (ht : Transition lib r task r') : FetchedOnce r' := by
  cases ht with
  | ended | plain | refused | staged | inlined | searched | lost | circled | shared =>
    exact h.congr rfl fun _ => Iff.rfl
  | looped | joined => exact h.setBranch _ _ _
  | asked =>
    refine FetchedOnce.setBranch ?_ _ _ _
    exact h.congr rfl fun _ => Iff.rfl
  | answered =>
    refine FetchedOnce.setBranch (h.congr (fetched_release ..) fun l => ?_) _ _ _
    rw [Requested, Requested, location?_release]
  | @opened k t l _ _ _ _ _ hl =>
    refine h.congr rfl fun l' => ?_
    rw [Requested, Requested, location?_setKey, location?_setLocation]
    split
    · rename_i hll'
      subst hll'
      rw [hl]
      constructor
      · rintro ⟨t', ht', hphase⟩
        cases ht'
        exact absurd rfl hphase
      · rintro ⟨t', ht', -⟩
        cases ht'
    · rfl
  | passed =>
    refine h.congr (fetched_release ..) fun l => ?_
    rw [Requested, Requested, location?_setKey, location?_release]
  | requested hl hphase => exact h.request hl hphase _ _
  | awaited hl hphase => exact h.setLocation hl (by rw [hphase]; exact nofun) nofun
  | missing hl hphase => exact h.setLocation hl (by rw [hphase]; exact nofun) nofun
  | filled hl hphase => exact h.setLocation hl (by rw [hphase]; exact nofun) nofun
  | spoiled kind hl hphase =>
    have hemit : FetchedOnce (emit r kind) := h.congr rfl fun _ => Iff.rfl
    exact hemit.setLocation hl (by rw [hphase]; exact nofun) nofun
  | @expanded l t _ raw is kind hl hphase =>
    have hload : FetchedOnce (substitute (emit r kind) t.load t.key (marked raw is)) :=
      h.congr rfl fun _ => Iff.rfl
    exact hload.setLocation hl (by rw [hphase]; exact nofun) nofun

end FetchedOnce

variable {lib : Library} {loads : List Load} {r : Resolution}

theorem Reached.fetchedOnce {loads : List Load} {r : Resolution} (h : Reached lib loads r) :
    FetchedOnce r := by
  induction h with
  | start =>
    refine ⟨List.nodup_nil, fun l => ⟨?_, ?_⟩⟩
    · rintro ⟨⟩
    · rintro ⟨t, ht, -⟩
      cases ht
  | submit load _ ih => exact ih.congr rfl fun _ => Iff.rfl
  | begin n _ _ _ ih => exact ih.congr rfl fun _ => Iff.rfl
  | elsewhere world _ _ ih => exact ih.congr rfl fun _ => Iff.rfl
  | poll hr hcan ih => exact ih.transition (transition_of_canStep hr.coherent.1 hcan)

/-- No location is ever fetched twice.  When all loads succeed, those that are fetched are the
reachable ones. -/
theorem fetched_once (h : Reached lib loads r) :
    (∀ l : Location, r.fetched.count l.text ≤ 1) ∧
      (lib.Plain loads → (∀ n < loads.length, Succeeded r n) →
        ∀ l : Location, r.fetched.count l.text = 1 ↔ lib.Reachable loads l) := by
  have hfetched := h.fetchedOnce
  have hsound := h.sound
  refine ⟨fun l => List.nodup_iff_count_le_one.mp hfetched.nodup l.text, ?_⟩
  intro hplain hall l
  have hcount : r.fetched.count l.text = 1 ↔ Requested r l := by
    rw [← hfetched.mem_iff]
    exact ⟨fun h => List.count_pos_iff.mp (by omega),
      List.count_eq_one_of_mem hfetched.nodup⟩
  rw [hcount]
  constructor
  · rintro ⟨t, ht, -⟩
    obtain ⟨w, hw, -⟩ := hsound.exists_way_location ht
    exact (hw.open hsound).reachable hplain
  · intro hl
    obtain ⟨text, htext⟩ := hsound.outcome_of_reachable hplain hall hl
    obtain ⟨t, ht, hphase⟩ := locationOutcome?_eq_some.mp htext
    exact ⟨t, ht, by rw [hphase]; exact nofun⟩

/-- Two loads.  The first file is asked for by its key, by that key again and by another key; the
second file, which the first one imports, is asked for by the second load, too. -/
def nestedLoads : List Load :=
  [⟨"s/x", "@import \"a\";", []⟩, ⟨"s/y", "@import 'a';@import \"../s/a\";@import \"b\";", []⟩]

/-- Each of the two files is fetched once. -/
theorem fetched_once_nested :
    (play branchedLibrary nestedLoads 40).fetched = ["s/_a.scss", "s/_b.scss"] ∧
      ∀ l : Location, (play branchedLibrary nestedLoads 40).fetched.count l.text ≤ 1 ∧
        ((play branchedLibrary nestedLoads 40).fetched.count l.text = 1 ↔
          branchedLibrary.Reachable nestedLoads l) := by
  obtain ⟨honce, hreachable⟩ := fetched_once (reached_play branchedLibrary nestedLoads 40)
  have hplain : branchedLibrary.Plain nestedLoads :=
    (Library.barless_memory (by decide) (by decide)).plain
  have hall : ∀ n < nestedLoads.length, Succeeded (play branchedLibrary nestedLoads 40) n := by
    intro n hn
    match n, hn with
    | 0, _ => exact ⟨0, ";x;", by decide +kernel⟩
    | 1, _ => exact ⟨1, ";;y;", by decide +kernel⟩
  exact ⟨by decide +kernel, fun l => ⟨honce l, hreachable hplain hall l⟩⟩

/-- A base path with a bar: the key is cut too early. -/
def barredLibrary : Library where
  loader := .memory [("a|b/_c.scss", "right"), ("a./_c.scss", "wrong")] [] none 0
  extension := "scss"
  disk := ⟨[], []⟩

def barredLoads : List Load :=
  [⟨"a|b/x.scss", "@import \"c\";", []⟩]

/-- With a bar in a base path a load may succeed with the text of another file. -/
theorem fetched_elsewhere :
    Reached barredLibrary barredLoads (play barredLibrary barredLoads 20) ∧
      (∀ n < barredLoads.length, Succeeded (play barredLibrary barredLoads 20) n) ∧
      barredLibrary.Reachable barredLoads ⟨"a|b/_c.scss"⟩ ∧
      (play barredLibrary barredLoads 20).fetched.count ("a|b/_c.scss" : Text) = 0 := by
  refine ⟨reached_play .., fun n hn => ?_, ?_, by decide +kernel⟩
  · obtain rfl : n = 0 := by simpa [barredLoads] using hn
    exact ⟨0, "wrong;", by decide +kernel⟩
  · have himports : barredLibrary.imports "a|b/x.scss" "@import \"c\";" =
        .ok [⟨⟨"a|b/|./_c.scss"⟩, "./_c.scss"⟩] := by decide +kernel
    have hfind : barredLibrary.find (barredLibrary.base "a|b/x.scss") "./_c.scss" =
        .ok ⟨"a|b/_c.scss"⟩ := by decide +kernel
    exact .direct (List.mem_singleton.mpr rfl) ⟨_, himports, _, List.mem_singleton.mpr rfl, hfind⟩

end StyleBatch.Resolution
