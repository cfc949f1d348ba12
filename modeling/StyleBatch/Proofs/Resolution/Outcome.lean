import StyleBatch.Proofs.Reference
import StyleBatch.Proofs.Resolution.Success

/-!
# Outcomes are those of the recursion

Where no cycle is reached and no address holds a bar, no guard fires: a branch that leads back,
or a key that finds a location on its own way, would be on a cycle.  What is left of an outcome
is the outcome of `Library.inline`, by induction along the edges of the graph.

* `Sound.run_inline`: the outcome of a location.
* `Sound.run_inline_of_key`: the outcome of a key that finds the location.
* `Sound.error_iff_inlineSource`: the faults of a load.
-/

namespace StyleBatch.Resolution

open Library

variable {lib : Library} {loads : List Load} {r : Resolution}

/-- A key that was found to be circular is on a cycle. -/
theorem Sound.cycle_of_circled (h : Sound lib loads r) (hbarless : lib.Barless loads) {k : Key}
    {t : KeyTask} (hk : r.key? k = some t) {l : Location} (hfind : lib.find k.base t.file = .ok l)
    (hl : l.text ∈ t.ancestry) : Relation.TransGen (lib.Edge loads) l.text l.text := by
  obtain ⟨w, hw, -, hancestry⟩ := h.exists_way_key hk
  obtain ⟨hway, hasks, -⟩ := hw.of_key
  have hopen := hway.open h
  rw [← hancestry] at hl
  have hreachable := hasks.reachable hopen hbarless.plain hfind
  exact hopen.cycle_of_location hbarless hasks hfind hl (hbarless.location l hreachable)

/-- What an import of an acyclic source was answered is what the recursion says. -/
theorem Sound.run_inlineImport (h : Sound lib loads r) (hbarless : lib.Barless loads) {w : Way}
    (hw : w.Stands lib loads r) (hacyclic : lib.Acyclic loads (w.address loads))
    (hrec : ∀ l : Location, lib.Edge loads (w.address loads) l.text →
      ∀ o, locationOutcome? r l = some o → (lib.inline l).run = some o)
    {i : Import} (hasks : w.Asks lib loads i) {o : Outcome}
    (ho : Answer r (w.ancestry loads) i.key o) :
    (lib.inlineImport (w.address loads) i).run = some o := by
  have hopen := hw.open h
  have hbase := hopen.separator_not_mem_base hbarless.plain
  have hformed := hasks.formed hbase
  rcases ho with ⟨hmem, -⟩ | ⟨-, ho⟩
  · exact absurd (hopen.cycle_of_key hbarless hasks hmem) (hacyclic _ .refl)
  · obtain ⟨t, hk, hphase⟩ := keyOutcome?_eq_some.mp ho
    have hfile : t.file = i.file :=
      congrArg Import.file ((h.formed hbarless.plain hk).eq hformed rfl)
    have hsound := (h.keys _ t hk).2.2
    rw [hphase] at hsound
    have hfind : lib.find i.key.base t.file = lib.find (lib.base (w.address loads)) i.file := by
      obtain ⟨source, is, himports, hi, -⟩ := hasks.exists_source
      rw [hfile, base_of_mem_imports hbase himports hi]
    rcases hsound with ⟨fault, hfault, rfl⟩ | ⟨l, hl, houtcome⟩
    · exact run_given_bind_error (hfind ▸ hfault) _
    · have hedge := hasks.edge hbase (hfile ▸ hl)
      rcases houtcome with ⟨hmem, -⟩ | ⟨-, houtcome⟩
      · exact absurd (h.cycle_of_circled hbarless hk hl hmem) (hacyclic _ (.single hedge))
      · rw [inlineImport, run_given_bind_ok (hfind ▸ hl)]
        exact hrec l hedge o houtcome

/-- What a settled source was answered is what the recursion says. -/
theorem Sound.forall₂_inlineImport (h : Sound lib loads r) (hbarless : lib.Barless loads) {w : Way}
    (hw : w.Stands lib loads r) (hacyclic : lib.Acyclic loads (w.address loads))
    (hrec : ∀ l : Location, lib.Edge loads (w.address loads) l.text →
      ∀ o, locationOutcome? r l = some o → (lib.inline l).run = some o)
    {is : List Import} {os : List Outcome} (his : ∀ i ∈ is, w.Asks lib loads i)
    (hos : List.Forall₂ (fun i o => Answer r (w.ancestry loads) i.key o) is os) :
    List.Forall₂ (fun i o => (lib.inlineImport (w.address loads) i).run = some o) is os := by
  induction hos with
  | nil => exact .nil
  | cons ho _ ih =>
    refine .cons ?_ (ih fun i hi => his i (List.mem_cons_of_mem _ hi))
    exact h.run_inlineImport hbarless hw hacyclic hrec (his _ List.mem_cons_self) ho

/-- The outcome of an acyclic location is that of the recursion. -/
theorem Sound.run_inline (h : Sound lib loads r) (hbarless : lib.Barless loads) {l : Location}
    (hacyclic : lib.Acyclic loads l.text) {o : Outcome} (ho : locationOutcome? r l = some o) :
    (lib.inline l).run = some o := by
  have hacc := hacyclic.acc
  generalize ha : l.text = a at hacc
  induction hacc generalizing l o with
  | intro a _ ih =>
    subst ha
    obtain ⟨t, hl, hphase⟩ := locationOutcome?_eq_some.mp ho
    obtain ⟨w, hw, -, hancestry⟩ := h.exists_way_location hl
    have hsound := (h.locations _ t hl).2
    rw [hphase, ← hancestry] at hsound
    rw [inline_eq]
    rcases hsound with ⟨fault, hfetch, rfl⟩ | ⟨raw, hfetch, hfinished⟩
    · exact run_given_bind_error hfetch _
    · rw [run_given_bind_ok hfetch]
      rcases hfinished with ⟨fault, himports, rfl⟩ | ⟨is, os, himports, hos, rfl⟩
      · exact run_given_bind_error himports _
      · refine run_inlineSource himports (h.forall₂_inlineImport hbarless hw hacyclic ?_ ?_ hos)
        · exact fun l' hedge o ho => ih l'.text hedge (hacyclic.of_edge hedge) ho rfl
        · exact fun i hi => ⟨raw, is, hfetch, himports, hi⟩

/-- The outcome of a key that finds an acyclic location is that of the recursion. -/
theorem Sound.run_inline_of_key (h : Sound lib loads r) (hbarless : lib.Barless loads)
    {l : Location} (hacyclic : lib.Acyclic loads l.text) {k : Key} {t : KeyTask}
    (hk : r.key? k = some t) (hfind : lib.find k.base t.file = .ok l) {o : Outcome}
    (ho : keyOutcome? r k = some o) : (lib.inline l).run = some o := by
  obtain ⟨t', hk', hphase⟩ := keyOutcome?_eq_some.mp ho
  rw [hk] at hk'
  cases hk'
  have hsound := (h.keys k t hk).2.2
  rw [hphase] at hsound
  rcases hsound with ⟨fault, hfault, -⟩ | ⟨l', hfind', houtcome⟩
  · rw [hfind] at hfault
    cases hfault
  · rw [hfind] at hfind'
    cases hfind'
    rcases houtcome with ⟨hmem, -⟩ | ⟨-, houtcome⟩
    · exact absurd (h.cycle_of_circled hbarless hk hfind hmem) (hacyclic _ .refl)
    · exact h.run_inline hbarless hacyclic houtcome

/-- An acyclic load ends in a fault if the recursion does, and in the same one. -/
theorem Sound.error_iff_inlineSource (h : Sound lib loads r) (hbarless : lib.Barless loads)
    {i n : Nat} {load : Load} {o : Outcome} (hi : r.inlinings[i]? = some ⟨n, .settled o⟩)
    (hload : loads[n]? = some load) (hacyclic : lib.Acyclic loads load.address) (fault : Fault) :
    o = .error fault ↔ (lib.inlineSource load.address load.text).run = some (.error fault) := by
  obtain ⟨load', hload', t, hfinished⟩ := h.inlinings i n _ hi
  rw [hload] at hload'
  cases hload'
  have hn : n < loads.length := (List.getElem?_eq_some_iff.mp hload).1
  have hw : (Way.load n).Stands lib loads r := .load hn ⟨i, _, hi, nofun⟩
  have haddress := Way.address_load hload
  rcases hfinished with ⟨fault', himports, rfl⟩ | ⟨is, os, himports, hos, rfl⟩
  · rw [inlineSource, run_given_bind_error himports]
    simp
  · rw [← Way.ancestry_load hload] at hos
    have hrun := h.forall₂_inlineImport hbarless hw (haddress ▸ hacyclic) ?_ ?_ hos
    · rw [run_inlineSource himports (haddress ▸ hrun)]
      cases os.mapM id <;> simp [Except.map]
    · rw [haddress]
      exact fun l hedge o ho => h.run_inline hbarless (hacyclic.of_edge hedge) ho
    · exact fun i hi => ⟨load, is, hload, himports, hi⟩

end StyleBatch.Resolution
