import StyleBatch.Proofs.Resolution.Success
import StyleBatch.Proofs.Resolution.Tangling

/-!
# Which loads hang

The guards against circular imports look at what a task has on its own way.  They miss a wait that
goes over several ways, so a load can hang, and it can exactly if it is in a tangle.

* `founded`: below a location that has ended in a text there is no cycle.
* `hangs_iff_tangle`: the loads that can hang; all others end, with a fault if they lead to a
  cycle.
* `stuck_circular`: two imports of one load that import each other.
-/

namespace StyleBatch

namespace Library

variable {lib : Library} {loads : List Load}

/-- The imports below a location have an end. -/
def Founded (lib : Library) (l : Location) : Prop :=
  Acc (fun l' l => lib.Imports l l') l

theorem Founded.of_reflTransGen {l l' : Location} (h : lib.Founded l)
    (hpath : Relation.ReflTransGen lib.Imports l l') : lib.Founded l' := by
  induction hpath with
  | refl => exact h
  | tail _ hedge ih => exact ih.inv hedge

/-- Where imports have an end there is no cycle. -/
theorem Founded.not_cycle {l : Location} (h : lib.Founded l) :
    ¬Relation.TransGen lib.Imports l l := by
  induction h with
  | intro l _ ih =>
    intro hcycle
    obtain ⟨l', hedge, hback⟩ := Relation.TransGen.head'_iff.mp hcycle
    exact ih l' hedge (.tail' hback hedge)

end Library

namespace Resolution

variable {lib : Library} {loads : List Load} {r : Resolution}

/-- Below a location that has ended in a text there is no cycle: the texts of its imports were
there before. -/
theorem founded (hr : Reached lib loads r) (hplain : lib.Plain loads) {l : Location} {text : Text}
    (ho : locationOutcome? r l = some (.ok text)) : lib.Founded l := by
  induction hr generalizing l text with
  | start => cases ho
  | submit load _ ih => exact ih hplain.of_append ho
  | begin n _ _ _ ih => exact ih hplain ho
  | elsewhere world _ _ ih => exact ih hplain ho
  | @poll loads r task hr hcan ih =>
    have hsound := hr.sound
    have ht := transition_of_canStep hr.coherent.1 hcan
    rcases ht.locationOutcome?_cases hsound ho with ho | ⟨t, hl, ⟨fault, -, h⟩ | ⟨raw, hfetch, h⟩⟩
    · exact ih hplain ho
    · cases h
    · obtain ⟨w, hw, -⟩ := hsound.exists_way_location hl
      have hbase := (hw.open hsound).separator_not_mem_base hplain
      refine Acc.intro l fun l' himports => ?_
      obtain ⟨raw', hfetch', hleads⟩ := himports
      rw [hfetch] at hfetch'
      cases hfetch'
      obtain ⟨t', ho'⟩ := hsound.outcome_of_leads hplain h hbase hleads
      exact ih hplain ho'

/-- The inlining of a load has an outcome. -/
def Ended (r : Resolution) (n : Nat) : Prop :=
  ∃ (i : Nat) (o : Outcome), r.inlinings[i]? = some ⟨n, .settled o⟩

/-- At rest, a load that has begun and not ended is in a tangle. -/
theorem AtRest.exists_tangle_of_not_ended (hrest : AtRest r) (hr : Reached lib loads r) {n : Nat}
    (hn : n ∈ r.inlinings.map Inlining.load) (hnot : ¬Ended r n) :
    ∃ ways, Tangle lib loads ways ∧ Way.load n ∈ ways := by
  obtain ⟨⟨_, phase⟩, hx, rfl⟩ := List.mem_map.mp hn
  obtain ⟨i, hi⟩ := List.mem_iff_getElem?.mp hx
  refine hrest.exists_tangle hr.sound hi ?_
  rintro o rfl
  exact hnot ⟨i, o, hi⟩

/-- A load of a tangle can hang, with all loads begun. -/
theorem exists_stuck {ways : Finset Way} (htangle : Tangle lib loads ways) {n : Nat}
    (hn : Way.load n ∈ ways) : ∃ r, Reached lib loads r ∧ AtRest r ∧
      (∀ m < loads.length, m ∈ r.inlinings.map Inlining.load) ∧ ¬Ended r n := by
  obtain ⟨r, hr, hrest, hbegun, hcaught⟩ := htangle.exists_rest
  exact ⟨r, hr, hrest, hbegun, (hcaught _ hn).2⟩

/-- Which loads hang.  A load can come to rest without an outcome exactly if it is in a tangle; if
it is in none, every fair run ends it, and in a tangle some fair run never does.  A load that ends
has a fault if it leads to a cycle of imports. -/
theorem hangs_iff_tangle (lib : Library) (loads : List Load) (n : Nat) :
    ((∃ r, Reached lib loads r ∧ AtRest r ∧
        (∀ m < loads.length, m ∈ r.inlinings.map Inlining.load) ∧
        n ∈ r.inlinings.map Inlining.load ∧ ¬Ended r n) ↔
      ∃ ways, Tangle lib loads ways ∧ Way.load n ∈ ways) ∧
    ((∀ run : FairRun lib loads, n ∈ (run.state 0).inlinings.map Inlining.load →
        ∃ m, ∀ m' ≥ m, Ended (run.state m') n) ↔
      ¬∃ ways, Tangle lib loads ways ∧ Way.load n ∈ ways) ∧
    (lib.Plain loads → ∀ (r : Resolution) (i : Nat) (o : Outcome) (load : Load) (l l' : Location),
      Reached lib loads r → r.inlinings[i]? = some ⟨n, .settled o⟩ → loads[n]? = some load →
      lib.Leads load.address load.text l → Relation.ReflTransGen lib.Imports l l' →
      Relation.TransGen lib.Imports l' l' → ∃ fault, o = .error fault) := by
  have hlength : ∀ {ways : Finset Way}, Tangle lib loads ways → Way.load n ∈ ways →
      n < loads.length := by
    intro ways htangle hn
    cases htangle.isOpen _ hn with
    | load hn => exact hn
  refine ⟨⟨?_, ?_⟩, ⟨?_, ?_⟩, ?_⟩
  · rintro ⟨r, hr, hrest, -, hn, hnot⟩
    exact hrest.exists_tangle_of_not_ended hr hn hnot
  · rintro ⟨ways, htangle, hn⟩
    obtain ⟨r, hr, hrest, hbegun, hnot⟩ := exists_stuck htangle hn
    exact ⟨r, hr, hrest, hbegun, hbegun n (hlength htangle hn), hnot⟩
  · rintro hends ⟨ways, htangle, hn⟩
    obtain ⟨r, hr, -, hbegun, hcaught⟩ := htangle.exists_rest
    obtain ⟨run, rfl⟩ := exists_fairRun hr
    obtain ⟨m, hm⟩ := hends run (hbegun n (hlength htangle hn))
    exact (run.caught htangle hcaught m _ hn).2 (hm m le_rfl)
  · intro hnone run hn
    obtain ⟨m, hrest⟩ := run.eventually_rest
    refine ⟨m, fun m' hm' => ?_⟩
    by_contra hnot
    rw [← run.map_load_inlinings m'] at hn
    exact hnone ((hrest m' hm').1.exists_tangle_of_not_ended (run.reached_state m') hn hnot)
  · intro hplain r i o load l l' hr hi hload hleads hpath hcycle
    cases o with
    | error fault => exact ⟨fault, rfl⟩
    | ok text =>
      obtain ⟨load', hload', t, hfinished⟩ := hr.sound.inlinings i n _ hi
      rw [hload] at hload'
      cases hload'
      have hbase := hplain.load load (List.mem_of_getElem? hload)
      obtain ⟨t', ho⟩ := hr.sound.outcome_of_leads hplain hfinished hbase hleads
      exact absurd hcycle ((founded hr hplain ho).of_reflTransGen hpath).not_cycle

/-! ## Two imports that import each other -/

section Circular

/-- Two files that import each other. -/
def circularLibrary : Library where
  loader := .memory [("s/_a.scss", "@import \"b\";"), ("s/_b.scss", "@import \"a\";")] [] none 0
  extension := "scss"
  disk := ⟨[], []⟩

/-- A load that imports one of them ends in a fault. -/
theorem fault_circular : ∃ r o fault, Reached circularLibrary smallLoads r ∧
    r.inlinings[0]? = some ⟨0, .settled o⟩ ∧ o = .error fault := by
  have hplain : circularLibrary.Plain smallLoads :=
    (Library.barless_memory (by decide) (by decide)).plain
  have hleads : circularLibrary.Leads "s/x" "@import \"a\";" ⟨"s/_a.scss"⟩ :=
    ⟨[⟨⟨"s/|./_a.scss"⟩, "./_a.scss"⟩], by decide +kernel, _, List.mem_singleton_self _,
      by decide +kernel⟩
  have hback : circularLibrary.Imports ⟨"s/_b.scss"⟩ ⟨"s/_a.scss"⟩ :=
    ⟨"@import \"a\";", by decide +kernel, [⟨⟨"s/|./_a.scss"⟩, "./_a.scss"⟩], by decide +kernel, _,
      List.mem_singleton_self _, by decide +kernel⟩
  have hforth : circularLibrary.Imports ⟨"s/_a.scss"⟩ ⟨"s/_b.scss"⟩ :=
    ⟨"@import \"b\";", by decide +kernel, [⟨⟨"s/|./_b.scss"⟩, "./_b.scss"⟩], by decide +kernel, _,
      List.mem_singleton_self _, by decide +kernel⟩
  have hended : (play circularLibrary smallLoads 40).inlinings[0]? = some ⟨0, .settled (.error
      (.circularImport ["s/x", "s/|./_a.scss", "s/_a.scss", "s/|./_b.scss", "s/_b.scss",
        "s/|./_a.scss"]))⟩ := by decide +kernel
  have hr := reached_play circularLibrary smallLoads 40
  obtain ⟨fault, hfault⟩ := (hangs_iff_tangle circularLibrary smallLoads 0).2.2 hplain _ 0 _ _ _ _ hr
    hended rfl hleads .refl (.tail (.single hforth) hback)
  exact ⟨_, _, fault, hr, hended, hfault⟩

/-- A load that imports both. -/
def circularLoads : List Load :=
  [⟨"s/x", "@import \"a\";\n@import \"b\";\n", []⟩]

/-- The import of a partial next to the load. -/
def circularImport (name : Text) : Import :=
  ⟨⟨"s/|./_".toList ++ name ++ ".scss".toList⟩, "./_".toList ++ name ++ ".scss".toList⟩

/-- The way from the load to the key of a partial. -/
def circularKey (name : Text) : Way :=
  .key (.load 0) (circularImport name)

/-- The way from the load to a partial. -/
def circularFile (name : Text) : Way :=
  .location (circularKey name) ⟨"s/_".toList ++ name ++ ".scss".toList⟩

def circularWays : Finset Way :=
  {.load 0, circularKey "a", circularKey "b", circularFile "a", circularFile "b"}

/-- The load waits for the keys, the keys for the files, and each file for the other one's key. -/
theorem tangle_circular : Tangle circularLibrary circularLoads circularWays := by
  have hasksA : (Way.load 0).Asks circularLibrary circularLoads (circularImport "a") :=
    ⟨_, [circularImport "a", circularImport "b"], rfl, by decide +kernel, by simp⟩
  have hasksB : (Way.load 0).Asks circularLibrary circularLoads (circularImport "b") :=
    ⟨_, [circularImport "a", circularImport "b"], rfl, by decide +kernel, by simp⟩
  have hfindsA : (circularKey "a").Finds circularLibrary circularLoads ⟨"s/_a.scss"⟩ :=
    ⟨by decide +kernel, by decide +kernel⟩
  have hfindsB : (circularKey "b").Finds circularLibrary circularLoads ⟨"s/_b.scss"⟩ :=
    ⟨by decide +kernel, by decide +kernel⟩
  have hfileA : (circularFile "a").Asks circularLibrary circularLoads (circularImport "b") :=
    ⟨"@import \"b\";", [circularImport "b"], by decide +kernel, by decide +kernel, by simp⟩
  have hfileB : (circularFile "b").Asks circularLibrary circularLoads (circularImport "a") :=
    ⟨"@import \"a\";", [circularImport "a"], by decide +kernel, by decide +kernel, by simp⟩
  have hopen : (Way.load 0).Open circularLibrary circularLoads := .load (by decide)
  have hopenA : (circularKey "a").Open circularLibrary circularLoads :=
    .key hopen hasksA (by decide +kernel)
  have hopenB : (circularKey "b").Open circularLibrary circularLoads :=
    .key hopen hasksB (by decide +kernel)
  have hmem : ∀ w, w ∈ circularWays ↔ w = .load 0 ∨ w = circularKey "a" ∨ w = circularKey "b" ∨
      w = circularFile "a" ∨ w = circularFile "b" := fun w => by simp [circularWays]
  refine ⟨?_, ?_, ?_, ?_, ?_⟩
  · intro w hw
    rcases (hmem w).mp hw with rfl | rfl | rfl | rfl | rfl
    · exact hopen
    · exact hopenA
    · exact hopenB
    · exact hopenA.location hfindsA
    · exact hopenB.location hfindsB
  · intro w i hw
    rcases (hmem _).mp hw with h | h | h | h | h <;> cases h <;> exact (hmem _).mpr (Or.inl rfl)
  · intro w l hw
    rcases (hmem _).mp hw with h | h | h | h | h <;> cases h <;> simp [hmem]
  · intro w hw w' hw' hnode
    rcases (hmem w).mp hw with rfl | rfl | rfl | rfl | rfl <;>
      rcases (hmem w').mp hw' with rfl | rfl | rfl | rfl | rfl <;>
      first | rfl | exact absurd hnode (by decide)
  · intro w hw
    rcases (hmem w).mp hw with rfl | rfl | rfl | rfl | rfl
    · exact ⟨circularKey "a", by simp [hmem], circularImport "a", hasksA, rfl, by decide +kernel⟩
    · exact ⟨circularFile "a", by simp [hmem], hfindsA⟩
    · exact ⟨circularFile "b", by simp [hmem], hfindsB⟩
    · exact ⟨circularKey "b", by simp [hmem], circularImport "b", hfileA, rfl, by decide +kernel⟩
    · exact ⟨circularKey "a", by simp [hmem], circularImport "a", hfileB, rfl, by decide +kernel⟩

/-- The only load can come to rest without an outcome. -/
theorem stuck_circular : ∃ r, Reached circularLibrary circularLoads r ∧ AtRest r ∧
    (∀ m < circularLoads.length, m ∈ r.inlinings.map Inlining.load) ∧ ¬Ended r 0 :=
  exists_stuck tangle_circular (by simp [circularWays])

end Circular

end Resolution

end StyleBatch
