import StyleBatch.Proofs.Resolution.Standing

/-!
# Loads that succeed

If a source ends in a text, so has every import of it: no outcome is left out.  Where no base
path holds a bar, a key belongs to one file, and so `Sound.outcome_of_reachable`: when all loads
succeed, so has every reachable location.
-/

namespace StyleBatch.Resolution

/-- A load whose imports have been inlined without a fault. -/
def Succeeded (r : Resolution) (n : Nat) : Prop :=
  ∃ (i : Nat) (text : Text), r.inlinings[i]? = some ⟨n, .settled (.ok text)⟩

variable {lib : Library} {loads : List Load} {r : Resolution}

/-- A source that ends in a text has no fault, and its imports have texts. -/
theorem Finished.exists_imports {address source text : Text} {ancestry : Ancestry}
    {finish : List Text → Text} (h : Finished lib r address source ancestry finish (.ok text)) :
    ∃ is, lib.imports address source = .ok is ∧
      ∀ i ∈ is, i.key.text ∉ ancestry ∧ ∃ t, keyOutcome? r i.key = some (.ok t) := by
  rcases h with ⟨fault, -, h⟩ | ⟨is, os, himports, hos, ho⟩
  · cases h
  · refine ⟨is, himports, fun i hi => ?_⟩
    obtain ⟨o, hmem, hanswer⟩ := exists_right_of_forall₂ hos hi
    cases hmapM : os.mapM id with
    | error fault =>
      rw [hmapM] at ho
      cases ho
    | ok ts =>
      obtain ⟨t, -, ht⟩ := exists_right_of_forall₂ (mapM_eq_ok_iff.mp hmapM) hmem
      rw [id] at ht
      subst ht
      rcases hanswer with ⟨-, h⟩ | ⟨hnot, h⟩
      · cases h
      · exact ⟨hnot, t, h⟩

theorem Finished.keyOutcome?_of_ok {address source text : Text} {ancestry : Ancestry}
    {finish : List Text → Text} (h : Finished lib r address source ancestry finish (.ok text))
    {is : List Import} (himports : lib.imports address source = .ok is) {i : Import} (hi : i ∈ is) :
    ∃ t, keyOutcome? r i.key = some (.ok t) := by
  obtain ⟨is', himports', hkeys⟩ := h.exists_imports
  rw [himports] at himports'
  cases himports'
  exact (hkeys i hi).2

/-- Where no base path holds a bar, the file of a key is the file of whoever asks for it. -/
theorem Sound.formed (h : Sound lib loads r) (hplain : lib.Plain loads) {k : Key} {t : KeyTask}
    (hk : r.key? k = some t) : (⟨k, t.file⟩ : Import).Formed := by
  obtain ⟨w, hw, -⟩ := h.exists_way_key hk
  obtain ⟨hway, hasks, -⟩ := hw.of_key
  exact hasks.formed ((hway.open h).separator_not_mem_base hplain)

/-- A key that ends in a text has found a location that does. -/
theorem Sound.exists_location_of_ok (h : Sound lib loads r) {k : Key} {t : KeyTask}
    (hk : r.key? k = some t) {text : Text} (ho : keyOutcome? r k = some (.ok text)) :
    ∃ l, lib.find k.base t.file = .ok l ∧ locationOutcome? r l = some (.ok text) := by
  obtain ⟨t', hk', hphase⟩ := keyOutcome?_eq_some.mp ho
  rw [hk] at hk'
  cases hk'
  have hsound := (h.keys k t hk).2.2
  rw [hphase] at hsound
  rcases hsound with ⟨fault, -, hfault⟩ | ⟨l, hfind, ⟨-, hfault⟩ | ⟨-, hl⟩⟩
  · cases hfault
  · cases hfault
  · exact ⟨l, hfind, hl⟩

theorem Sound.locationOutcome?_of_ok (h : Sound lib loads r) (hplain : lib.Plain loads)
    {i : Import} (hi : i.Formed) {l : Location} (hfind : lib.find i.key.base i.file = .ok l)
    {text : Text} (ho : keyOutcome? r i.key = some (.ok text)) :
    locationOutcome? r l = some (.ok text) := by
  obtain ⟨t, hk, -⟩ := keyOutcome?_eq_some.mp ho
  have heq : (⟨i.key, t.file⟩ : Import) = i := (h.formed hplain hk).eq hi rfl
  obtain ⟨l', hfind', hl'⟩ := h.exists_location_of_ok hk ho
  rw [show t.file = i.file from congrArg Import.file heq, hfind] at hfind'
  cases hfind'
  exact hl'

/-- What a source that ends in a text leads to ends in a text. -/
theorem Sound.outcome_of_leads (h : Sound lib loads r) (hplain : lib.Plain loads)
    {address source text : Text} {ancestry : Ancestry} {finish : List Text → Text}
    (hfinished : Finished lib r address source ancestry finish (.ok text))
    (hbase : Key.separator ∉ lib.base address) {l : Location} (hl : lib.Leads address source l) :
    ∃ t, locationOutcome? r l = some (.ok t) := by
  obtain ⟨is, himports, i, hi, hfind⟩ := hl
  obtain ⟨t, ht⟩ := hfinished.keyOutcome?_of_ok himports hi
  rw [← Library.base_of_mem_imports hbase himports hi] at hfind
  have hformed := Library.formed_of_mem_imports hbase himports hi
  exact ⟨t, h.locationOutcome?_of_ok hplain hformed hfind ht⟩

/-- When some loads succeed, so has every location that they reach. -/
theorem Sound.outcome_of_reachable_from (h : Sound lib loads r) (hplain : lib.Plain loads)
    {starts : List Load} (hall : ∀ load ∈ starts, ∃ n, loads[n]? = some load ∧ Succeeded r n)
    {l : Location} (hl : lib.Reachable starts l) : ∃ t, locationOutcome? r l = some (.ok t) := by
  have hmem : ∀ load ∈ starts, load ∈ loads := by
    intro load hload
    obtain ⟨n, hn, -⟩ := hall load hload
    exact List.mem_of_getElem? hn
  induction hl with
  | @direct load l hload hleads =>
    obtain ⟨n, hn, i, text, hi⟩ := hall load hload
    obtain ⟨load', hload', t, hfinished⟩ := h.inlinings i n _ hi
    rw [hn] at hload'
    cases hload'
    exact h.outcome_of_leads hplain hfinished (hplain.load _ (hmem load hload)) hleads
  | @nested l l' hl himports ih =>
    obtain ⟨t, ht⟩ := ih
    obtain ⟨u, hu, hphase⟩ := locationOutcome?_eq_some.mp ht
    have hsound := (h.locations l u hu).2
    rw [hphase] at hsound
    obtain ⟨raw, hfetch, hleads⟩ := himports
    rcases hsound with ⟨fault, -, hfault⟩ | ⟨raw', hfetch', hfinished⟩
    · cases hfault
    · rw [hfetch] at hfetch'
      cases hfetch'
      exact h.outcome_of_leads hplain hfinished (hplain.location l (hl.mono hmem)) hleads

/-- When all loads succeed, so has every reachable location. -/
theorem Sound.outcome_of_reachable (h : Sound lib loads r) (hplain : lib.Plain loads)
    (hall : ∀ n < loads.length, Succeeded r n) {l : Location} (hl : lib.Reachable loads l) :
    ∃ t, locationOutcome? r l = some (.ok t) := by
  refine h.outcome_of_reachable_from hplain (fun load hload => ?_) hl
  obtain ⟨n, hn, rfl⟩ := List.getElem_of_mem hload
  exact ⟨n, List.getElem?_eq_getElem hn, hall n hn⟩

end StyleBatch.Resolution
