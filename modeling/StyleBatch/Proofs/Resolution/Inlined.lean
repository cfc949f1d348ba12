import StyleBatch.Proofs.Resolution.Drawn

/-!
# Every location stands once

Loads that share a cache share the texts of the locations: when all of them succeed, every
location that they reach has been put in the place of one directive, and all other directives
that lead to it have become empty.

* `Drawn.exists_choice`: the trees of loads that have succeeded give the choice.
* `inlined_once`: the texts of the loads are their sources, expanded by the choice.
-/

namespace StyleBatch

namespace Pieces

/-- A tree without holes spells a clean text. -/
theorem clean_render {p : Pieces} (h : p.Neat) (hdone : ∀ k, .hole k ∉ p.tokens) :
    Text.Clean p.render := by
  have htokens : ∀ token ∈ p.tokens, Text.Clean token.spell := by
    intro token htoken
    cases token with
    | text t => exact h _ htoken
    | hole k => exact absurd htoken (hdone k)
  constructor
  · intro hmem
    obtain ⟨token, htoken, hc⟩ := List.mem_flatMap.mp hmem
    exact (htokens token htoken).1 hc
  · intro hmem
    obtain ⟨token, htoken, hc⟩ := List.mem_flatMap.mp hmem
    exact (htokens token htoken).2 hc

end Pieces

/-- A clean text has no placeholder. -/
theorem Key.isPending_of_clean (k : Key) {t : Text} (h : Text.Clean t) : k.isPending t = false := by
  rw [Bool.eq_false_iff]
  intro hholds
  rw [isPending, Text.holds] at hholds
  obtain ⟨⟨before, after⟩, hcut⟩ := Option.isSome_iff_exists.mp hholds
  refine h.1 ?_
  rw [Text.eq_of_cut? hcut, placeholder]
  simp

namespace Resolution

open Library

variable {lib : Library} {loads : List Load} {r : Resolution} {tree : Nat → Pieces}

theorem Succeeded.staged {n : Nat} (h : Succeeded r n) : Staged r n := by
  obtain ⟨i, text, hi⟩ := h
  exact ⟨i, _, hi, nofun⟩

theorem Succeeded.settled {n : Nat} (h : Succeeded r n) : (Way.load n).Settled r := by
  obtain ⟨i, text, hi⟩ := h
  exact ⟨i, _, hi⟩

/-- No location is in two trees. -/
theorem Drawn.nodup_allPlaces (h : Drawn lib loads r tree) (n : Nat) :
    (allPlaces tree n).Nodup := by
  rw [allPlaces, List.nodup_flatMap]
  refine ⟨fun m _ => h.nodup m, ?_⟩
  have hrange : (List.range n).Pairwise (· ≠ ·) := List.nodup_range
  refine hrange.imp ?_
  intro m m' hne l hl hl'
  obtain ⟨t, ht, hload, -⟩ := (h.mem_places m l).mp hl
  obtain ⟨t', ht', hload', -⟩ := (h.mem_places m' l).mp hl'
  rw [ht] at ht'
  cases ht'
  exact hne (hload.symm.trans hload')

/-- When all loads have succeeded, the locations in the trees are those that they reach. -/
theorem Drawn.mem_allPlaces (h : Drawn lib loads r tree) (hsound : Sound lib loads r)
    (hplain : lib.Plain loads) (hall : ∀ n < loads.length, Succeeded r n) (l : Location) :
    l ∈ allPlaces tree loads.length ↔ lib.Reachable loads l := by
  rw [allPlaces, List.mem_flatMap]
  constructor
  · rintro ⟨n, -, hl⟩
    obtain ⟨t, ht, -⟩ := (h.mem_places n l).mp hl
    obtain ⟨w, hw, -⟩ := hsound.exists_way_location ht
    exact (hw.open hsound).reachable hplain
  · intro hl
    obtain ⟨text, ho⟩ := hsound.outcome_of_reachable hplain hall hl
    obtain ⟨t, ht, hphase⟩ := locationOutcome?_eq_some.mp ho
    have hentered : Entered r t.load l := ⟨t, ht, rfl, by rw [hphase]; rfl⟩
    have hplaces := (h.mem_places t.load l).mpr hentered
    refine ⟨t.load, List.mem_range.mpr ?_, hplaces⟩
    by_contra hlt
    rw [h.nil t.load] at hplaces
    · cases hplaces
    · intro hstaged
      obtain ⟨i, phase, hi, -⟩ := hstaged
      obtain ⟨load, hload, -⟩ := hsound.inlinings i _ phase hi
      exact hlt (List.getElem?_eq_some_iff.mp hload).1

/-- Nothing is left to put in for a load that has succeeded. -/
theorem Drawn.hole_not_mem (h : Drawn lib loads r tree) (hr : Reached lib loads r) {n : Nat}
    (hn : Succeeded r n) (k : Key) : .hole k ∉ (tree n).tokens := by
  rw [← List.count_eq_zero, h.count_hole, Multiset.count_eq_zero]
  exact hr.sound.not_mem_debt hr.coherent.1 hn.settled k

/-- A load that has succeeded has the text of every location that was put in it. -/
theorem Reached.carries (h : Reached lib loads r) (hclean : lib.Clean loads) {i n : Nat} {text : Text}
    (hi : r.inlinings[i]? = some ⟨n, .settled (.ok text)⟩) {l : Location} (hl : Entered r n l) :
    ∃ raw, lib.fetch l = .ok raw ∧ Carries text raw := by
  have hplain := hclean.barless.plain
  have hf := h.sound.faultless_of_succeeded ⟨i, text, hi⟩
  obtain ⟨p, hp, -⟩ := h.exists_traced (Q := fun _ _ => True) (List.append_nil loads) hclean hf
    (fun _ => trivial) (fun _ _ => trivial) (fun _ _ _ => trivial)
  have hstaged : Staged r n := ⟨i, _, hi, nofun⟩
  obtain ⟨load, hload, -⟩ := h.sound.inlinings i n _ hi
  obtain ⟨is, -, htree⟩ := hp.grown load hstaged hload
  obtain ⟨t, ht, hn, -⟩ := id hl
  obtain ⟨raw, hfetch⟩ := hf.location l t ht hn
  refine ⟨raw, hfetch, ?_⟩
  rw [← h.text_of_settled hplain hf hi, hp.render hstaged]
  exact htree.carries ((hp.mem_places l).mpr hl) hfetch

/-- When all loads that share a cache have succeeded, one directive is chosen for every location
that they reach, and the text of each load is its source with the chosen directives expanded and
the others left empty.  No placeholder is left in it, and over all loads every location that is
reachable was put in once. -/
theorem inlined_once (hclean : lib.Clean loads) (h : Reached lib loads r)
    (hall : ∀ n < loads.length, Succeeded r n) :
    ∃ (chosen : Site → Nat → Bool) (below : Nat → List Location),
      (∀ l, lib.Reachable loads l →
        ∃! o : Site × Nat, chosen o.1 o.2 = true ∧ lib.Occurs loads o.1 o.2 l) ∧
      (∀ s j, chosen s j = true → ∃ l, lib.Reachable loads l ∧ lib.Occurs loads s j l) ∧
      (∀ (i n : Nat) (text : Text), r.inlinings[i]? = some ⟨n, .settled (.ok text)⟩ →
        lib.expand loads chosen (.load n) = some (text, below n) ∧ '\x00' ∉ text ∧
          ∀ k : Key, k.isPending text = false) ∧
      ((List.range loads.length).flatMap below).Nodup ∧
      ∀ l, l ∈ (List.range loads.length).flatMap below ↔ lib.Reachable loads l := by
  have hplain := hclean.barless.plain
  have hsound := h.sound
  have hf := hsound.faultless hall
  obtain ⟨tree, htree⟩ := h.drawn hclean hf
  have hdone : ∀ n < loads.length, ∀ k, .hole k ∉ (tree n).tokens :=
    fun n hn k => htree.hole_not_mem h (hall n hn) k
  have hgrown : ∀ n load, loads[n]? = some load → ∃ is, lib.imports load.address load.text = .ok is ∧
      Grown lib (Directive.parts load.text) is (tree n) := by
    intro n load hload
    have hn := (List.getElem?_eq_some_iff.mp hload).1
    exact htree.grown n load (hall n hn).staged hload
  have hmem := htree.mem_allPlaces hsound hplain hall
  obtain ⟨chosen, hexpand, hoccurs, honce⟩ :=
    exists_choice hplain hgrown hdone (htree.nodup_allPlaces loads.length)
  refine ⟨chosen, fun n => (tree n).places, fun l hl => honce l ((hmem l).mpr hl), fun s j hs => ?_,
    fun i n text hi => ?_, htree.nodup_allPlaces loads.length, hmem⟩
  · obtain ⟨l, hl, hoccurs⟩ := hoccurs s j hs
    exact ⟨l, (hmem l).mp hl, hoccurs⟩
  · obtain ⟨load, hload, -⟩ := hsound.inlinings i n _ hi
    have hn := (List.getElem?_eq_some_iff.mp hload).1
    have htext : text = (tree n).render := by
      rw [← h.loadText_of_settled hplain hf hi, htree.render n (hall n hn).staged]
    have hcleantext := Pieces.clean_render (htree.neat n) (hdone n hn)
    rw [htext]
    exact ⟨hexpand n hn, hcleantext.1, fun k => k.isPending_of_clean hcleantext⟩

/-- Two loads that import one file, the second one twice. -/
def sharingLoads : List Load :=
  [⟨"s/x", "@import \"a\";", []⟩, ⟨"s/y", "p@import './_a.scss';@import \"a\";q", []⟩]

/-- The first load has the text, and no other directive has it. -/
theorem inlined_once_sharing : ∃ (chosen : Site → Nat → Bool) (below : Nat → List Location),
    smallLibrary.expand sharingLoads chosen (.load 0) = some (("x;" : Text), below 0) ∧
      smallLibrary.expand sharingLoads chosen (.load 1) = some (("p;;q" : Text), below 1) ∧
      ∃! o : Site × Nat, chosen o.1 o.2 = true ∧
        smallLibrary.Occurs sharingLoads o.1 o.2 ⟨"s/_a.scss"⟩ := by
  have hall : ∀ n < sharingLoads.length, Succeeded (play smallLibrary sharingLoads 20) n := by
    intro n hn
    match n, hn with
    | 0, _ => exact ⟨0, "x;", by decide +kernel⟩
    | 1, _ => exact ⟨1, "p;;q", by decide +kernel⟩
  have hreachable : smallLibrary.Reachable sharingLoads ⟨"s/_a.scss"⟩ := by
    have himports : smallLibrary.imports "s/x" "@import \"a\";" =
        .ok [⟨⟨"s/|./_a.scss"⟩, "./_a.scss"⟩] := by decide +kernel
    have hfind : smallLibrary.find (smallLibrary.base "s/x") "./_a.scss" =
        .ok ⟨"s/_a.scss"⟩ := by decide +kernel
    exact .direct List.mem_cons_self ⟨_, himports, _, List.mem_singleton.mpr rfl, hfind⟩
  obtain ⟨chosen, below, honce, -, htexts, -⟩ :=
    inlined_once (clean_memory (by decide) (by decide) (by decide) (by decide))
      (reached_play smallLibrary sharingLoads 20) hall
  refine ⟨chosen, below, (htexts 0 0 "x;" ?_).1, (htexts 1 1 "p;;q" ?_).1, honce _ hreachable⟩
  · decide +kernel
  · decide +kernel

end Resolution

end StyleBatch
