import StyleBatch.Proofs.Resolution.Outcome
import StyleBatch.Proofs.Resolution.Rest
import StyleBatch.Proofs.Stations

/-!
# Acyclic imports end as the recursion says

At rest an unsettled source waits for a key, the key for a location, and the location is one edge
further in the graph.  Where no cycle can be reached this has an end, so nothing waits
(`Sound.outcome_of_acyclic`), and by `Sound.run_inline` what is there is what the recursion says.

* `outcomes_acyclic`: outcomes of locations and keys, for every run; and every load that
  reaches no cycle ends, in a fault if and only if the recursion does.
-/

namespace StyleBatch.Resolution

open Library

variable {lib : Library} {loads : List Load} {r : Resolution}

/-- At rest, the key of an import is settled if the locations one edge further are. -/
theorem Sound.outcome_of_asks (h : Sound lib loads r) (hplain : lib.Plain loads)
    (hrest : AtRest r) {w : Way} (hw : w.Stands lib loads r) {i : Import}
    (hasks : w.Asks lib loads i) (hk : (r.key? i.key).isSome)
    (hedges : ∀ l : Location, lib.Edge loads (w.address loads) l.text → (r.location? l).isSome →
      ∃ o, locationOutcome? r l = some o) : ∃ o, keyOutcome? r i.key = some o := by
  have hbase := (hw.open h).separator_not_mem_base hplain
  obtain ⟨t, ht⟩ := Option.isSome_iff_exists.mp hk
  have hfile : t.file = i.file :=
    congrArg Import.file ((h.formed hplain ht).eq (hasks.formed hbase) rfl)
  rcases hrest.key ht with ⟨o, hphase⟩ | ⟨l, own, hphase, hnone⟩
  · exact ⟨o, keyOutcome?_eq_some.mpr ⟨t, ht, hphase⟩⟩
  · have hsound := (h.keys _ t ht).2.2
    rw [hphase] at hsound
    obtain ⟨hfind, -, hl⟩ := hsound
    obtain ⟨o, ho⟩ := hedges l (hasks.edge hbase (hfile ▸ hfind)) hl
    rw [hnone] at ho
    cases ho

/-- At rest, every acyclic location is settled. -/
theorem Sound.outcome_of_acyclic (h : Sound lib loads r) (hplain : lib.Plain loads)
    (hrest : AtRest r) {l : Location} (hacyclic : lib.Acyclic loads l.text)
    (hl : (r.location? l).isSome) : ∃ o, locationOutcome? r l = some o := by
  have hacc := hacyclic.acc
  generalize ha : l.text = a at hacc
  induction hacc generalizing l with
  | intro a _ ih =>
    subst ha
    obtain ⟨t, ht⟩ := Option.isSome_iff_exists.mp hl
    rcases hrest.location ht with ⟨o, hphase⟩ | ⟨raw, bs, hphase, b, hb, own, hreserved, hnone⟩
    · exact ⟨o, locationOutcome?_eq_some.mpr ⟨t, ht, hphase⟩⟩
    · obtain ⟨w, hw, -⟩ := h.exists_way_location ht
      have hsound := (h.locations l t ht).2
      rw [hphase] at hsound
      obtain ⟨hfetch, himports, hbs⟩ := hsound
      have hreservedSound := (hbs b hb).2.2
      rw [hreserved] at hreservedSound
      have hasks : (Way.location w l).Asks lib loads b.target :=
        ⟨raw, _, hfetch, himports, List.mem_map_of_mem hb⟩
      obtain ⟨o, ho⟩ := h.outcome_of_asks hplain hrest hw hasks hreservedSound.2
        fun l' hedge hl' => ih l'.text hedge (hacyclic.of_edge hedge) hl' rfl
      rw [hnone] at ho
      cases ho

/-- At rest, every acyclic load is settled. -/
theorem Sound.settled_of_acyclic (h : Sound lib loads r) (hplain : lib.Plain loads)
    (hrest : AtRest r) {i n : Nat} {phase : InliningPhase} {load : Load}
    (hi : r.inlinings[i]? = some ⟨n, phase⟩) (hload : loads[n]? = some load)
    (hacyclic : lib.Acyclic loads load.address) : ∃ o, phase = .settled o := by
  rcases hrest.inlining hi with hsettled | ⟨bs, rfl, b, hb, own, hreserved, hnone⟩
  · exact hsettled
  · obtain ⟨load', hload', himports, hbs⟩ := h.inlinings i n _ hi
    rw [hload] at hload'
    cases hload'
    have hn : n < loads.length := (List.getElem?_eq_some_iff.mp hload).1
    have hw : (Way.load n).Stands lib loads r := .load hn ⟨i, _, hi, nofun⟩
    have haddress := Way.address_load hload
    have hreservedSound := (hbs b hb).2.2
    rw [hreserved] at hreservedSound
    have hasks : (Way.load n).Asks lib loads b.target :=
      ⟨load, _, hload, himports, List.mem_map_of_mem hb⟩
    obtain ⟨o, ho⟩ := h.outcome_of_asks hplain hrest hw hasks hreservedSound.2
      fun l hedge hl => h.outcome_of_acyclic hplain hrest
        (hacyclic.of_edge (haddress ▸ hedge)) hl
    rw [hnone] at ho
    cases ho

/-- Every fair run settles every acyclic load that has begun. -/
theorem FairRun.eventually_settled (run : FairRun lib loads) (hplain : lib.Plain loads) {i n : Nat}
    {load : Load} (hload : loads[n]? = some load) (hacyclic : lib.Acyclic loads load.address)
    (hi : (run.state 0).inlinings[i]?.map Inlining.load = some n) :
    ∃ m, ∀ m' ≥ m, ∃ o, (run.state m').inlinings[i]? = some ⟨n, .settled o⟩ := by
  obtain ⟨m, hrest⟩ := run.eventually_rest
  refine ⟨m, fun m' hm' => ?_⟩
  have hi' : (run.state m').inlinings[i]?.map Inlining.load = some n := by
    rw [← List.getElem?_map, run.map_load_inlinings, List.getElem?_map, hi]
  obtain ⟨⟨n', phase⟩, hx, rfl⟩ := Option.map_eq_some_iff.mp hi'
  have hsound := (run.reached_state m').sound
  obtain ⟨o, rfl⟩ := hsound.settled_of_acyclic hplain (hrest m' hm').1 hx hload hacyclic
  exact ⟨o, hx⟩

/-- What is acyclic ends as the recursion says.  A settled location that reaches no cycle, and
every settled key that finds it, has the outcome of `Library.inline`, in every state of every
run.  A load that reaches no cycle is settled by every fair run, and has a fault exactly when the
recursion yields it for the imports of the load. -/
theorem outcomes_acyclic (hbarless : lib.Barless loads) :
    (∀ (r : Resolution) (l : Location), Reached lib loads r → lib.Acyclic loads l.text →
      (∀ o, r.locationOutcome? l = some o → (lib.inline l).run = some o) ∧
        ∀ k t o, r.key? k = some t → lib.find k.base t.file = .ok l →
          r.keyOutcome? k = some o → (lib.inline l).run = some o) ∧
      ∀ (n : Nat) (load : Load), loads[n]? = some load → lib.Acyclic loads load.address →
        (∀ (run : FairRun lib loads) (i : Nat),
          (run.state 0).inlinings[i]?.map Inlining.load = some n →
            ∃ m, ∀ m' ≥ m, ∃ o, (run.state m').inlinings[i]? = some ⟨n, .settled o⟩) ∧
          ∀ (r : Resolution) (i : Nat) (o : Outcome), Reached lib loads r →
            r.inlinings[i]? = some ⟨n, .settled o⟩ → ∀ fault, o = .error fault ↔
              (lib.inlineSource load.address load.text).run = some (.error fault) := by
  refine ⟨fun r l hr hacyclic => ⟨?_, ?_⟩, fun n load hload hacyclic => ⟨?_, ?_⟩⟩
  · exact fun o ho => hr.sound.run_inline hbarless hacyclic ho
  · exact fun k t o hk hfind ho => hr.sound.run_inline_of_key hbarless hacyclic hk hfind ho
  · exact fun run i hi => run.eventually_settled hbarless.plain hload hacyclic hi
  · exact fun r i o hr hi => hr.sound.error_iff_inlineSource hbarless hi hload hacyclic

/-- Two loads that share a file.  The second one has another import, in the file of which an import
is not found. -/
def failingLoads : List Load :=
  [⟨"s/x", "@import \"a\";@import \"b\";", []⟩, ⟨"s/y", "@import \"a\";@import \"c\";", []⟩]

/-- The files and the second load end as the recursion does, and every fair run settles both loads. -/
theorem outcomes_acyclic_branched :
    ((branchedLibrary.inline ⟨"s/_a.scss"⟩).run = some (.ok "y;x") ∧
      (branchedLibrary.inline ⟨"s/_b.scss"⟩).run = some (.ok "y") ∧
      (branchedLibrary.inline ⟨"s/_c.scss"⟩).run =
        some (.error (branchedLibrary.loader.notLocated "s/_d.scss"))) ∧
    ((∀ fault, (branchedLibrary.inlineSource "s/x" "@import \"a\";@import \"b\";").run ≠
        some (.error fault)) ∧
      (branchedLibrary.inlineSource "s/y" "@import \"a\";@import \"c\";").run =
        some (.error (branchedLibrary.loader.notLocated "s/_d.scss"))) ∧
    ∃ run : FairRun branchedLibrary failingLoads, ∀ i < 2,
      ∃ m o, (run.state m).inlinings[i]? = some ⟨i, .settled o⟩ := by
  have hbarless : branchedLibrary.Barless failingLoads :=
    barless_memory (by decide) (by decide)
  have hacyclic : ∀ a, branchedLibrary.Acyclic failingLoads a :=
    acyclic_memory ["s/x", "s/y", "s/_a.scss", "s/_c.scss", "s/_b.scss"] (by decide +kernel)
  have hplayed := reached_play branchedLibrary failingLoads 40
  have hended : (play branchedLibrary failingLoads 40).inlinings =
      [⟨0, .settled (.ok "y;x;;")⟩,
        ⟨1, .settled (.error (branchedLibrary.loader.notLocated "s/_d.scss"))⟩] ∧
      (play branchedLibrary failingLoads 40).locationOutcome? ⟨"s/_a.scss"⟩ = some (.ok "y;x") ∧
      (play branchedLibrary failingLoads 40).locationOutcome? ⟨"s/_b.scss"⟩ = some (.ok "y") ∧
      (play branchedLibrary failingLoads 40).keyOutcome? ⟨"s/|./_c.scss"⟩ =
        some (.error (branchedLibrary.loader.notLocated "s/_d.scss")) := by
    decide +kernel
  obtain ⟨hinlinings, ha, hb, hc⟩ := hended
  obtain ⟨hlocations, hloads⟩ := outcomes_acyclic hbarless
  refine ⟨⟨?_, ?_, ?_⟩, ⟨fun fault herror => ?_, ?_⟩, ?_⟩
  · exact (hlocations _ _ hplayed (hacyclic _)).1 _ ha
  · exact (hlocations _ _ hplayed (hacyclic _)).1 _ hb
  · have hkey : ∃ t, (play branchedLibrary failingLoads 40).key? ⟨"s/|./_c.scss"⟩ = some t ∧
        branchedLibrary.find (Key.base ⟨"s/|./_c.scss"⟩) t.file = .ok ⟨"s/_c.scss"⟩ :=
      ⟨_, rfl, by decide +kernel⟩
    obtain ⟨t, hkey, hfind⟩ := hkey
    exact (hlocations _ _ hplayed (hacyclic _)).2 _ t _ hkey hfind hc
  · have hfirst := (hloads 0 _ rfl (hacyclic _)).2 _ 0 _ hplayed (by rw [hinlinings]; rfl) fault
    exact nomatch hfirst.mpr herror
  · have hsecond := (hloads 1 _ rfl (hacyclic _)).2 _ 1 _ hplayed (by rw [hinlinings]; rfl)
    exact (hsecond _).mp rfl
  · obtain ⟨run, hrun⟩ := exists_fairRun (reached_begun branchedLibrary failingLoads)
    refine ⟨run, fun i hi => ?_⟩
    match i, hi with
    | 0, _ =>
      obtain ⟨m, hm⟩ := (hloads 0 _ rfl (hacyclic _)).1 run 0 (by rw [hrun]; rfl)
      exact ⟨m, hm m le_rfl⟩
    | 1, _ =>
      obtain ⟨m, hm⟩ := (hloads 1 _ rfl (hacyclic _)).1 run 1 (by rw [hrun]; rfl)
      exact ⟨m, hm m le_rfl⟩

end StyleBatch.Resolution
