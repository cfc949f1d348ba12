import StyleBatch.Proofs.Resolution.Settling
import StyleBatch.Proofs.Resolution.Success

/-!
# Loads without faults

Whether a task is going to meet a fault is settled when it starts.  So if a load has succeeded, no
task that ever worked on it has met one, whatever has become of other loads.

* `Faultless`: no task of a load meets a fault.
* `Sound.faultless_of_succeeded`: so it is when the load has succeeded, and `Faultless.of_later`: at
  any time before.
-/

namespace StyleBatch

open Resolution

namespace Resolution

/-- No task that works on a load meets a fault: sources have imports that do not lead back, keys
have locations, locations have texts, and what is waited for has no fault. -/
structure Faultless (lib : Library) (loads : List Load) (r : Resolution) (n : Nat) : Prop where
  source : ∀ ancestry address source, Staged r n → Origin lib loads r n ancestry address source →
    ∃ is, lib.imports address source = .ok is ∧ ∀ i ∈ is, i.key.text ∉ ancestry ∧
      ∀ o, keyOutcome? r i.key = some o → ∃ t, o = .ok t
  key : ∀ k t, r.key? k = some t → t.load = n → ∃ l, lib.find k.base t.file = .ok l ∧
    l.text ∉ t.ancestry ∧ ∀ o, locationOutcome? r l = some o → ∃ t, o = .ok t
  location : ∀ l t, r.location? l = some t → t.load = n → ∃ raw, lib.fetch l = .ok raw

namespace Faultless

variable {lib : Library} {loads : List Load} {r r' : Resolution} {n : Nat}

/-- What meets no fault later meets none before. -/
theorem of_later (h : Faultless lib loads r' n) (hlater : Later r r') :
    Faultless lib loads r n where
  source ancestry address source hstaged horigin := by
    obtain ⟨is, himports, his⟩ :=
      h.source ancestry address source (hlater.staged n hstaged) (horigin.later hlater)
    exact ⟨is, himports, fun i hi =>
      ⟨(his i hi).1, fun o ho => (his i hi).2 o (hlater.keyOutcome? ho)⟩⟩
  key k t hk hload := by
    obtain ⟨phase, hk', -⟩ := hlater.key k t hk
    obtain ⟨l, hfind, hnot, ho⟩ := h.key k { t with phase } hk' hload
    exact ⟨l, hfind, hnot, fun o hl => ho o (hlater.locationOutcome? hl)⟩
  location l t hl hload := by
    obtain ⟨phase, hl', -⟩ := hlater.location l t hl
    exact h.location l { t with phase } hl' hload

theorem of_submit {load : Load} (h : Faultless lib (loads ++ [load]) (r.addLoad load) n) :
    Faultless lib loads r n where
  source ancestry address source hstaged horigin :=
    h.source ancestry address source hstaged (horigin.submit load)
  key := h.key
  location := h.location

/-- An import does not lead back, and what it waits for has no fault. -/
theorem asked (h : Faultless lib loads r n) {ancestry : Ancestry} {i : Import}
    (hasked : Asked lib loads r n ancestry i) :
    i.key.text ∉ ancestry ∧ ∀ o, keyOutcome? r i.key = some o → ∃ t, o = .ok t := by
  obtain ⟨hstaged, address, source, is, horigin, himports, hi⟩ := hasked
  obtain ⟨is', himports', his⟩ := h.source _ _ _ hstaged horigin
  rw [himports] at himports'
  cases himports'
  exact his i hi

/-- A key is found somewhere. -/
theorem find_ne_error {k : Key} {t : KeyTask} (h : Faultless lib loads r t.load)
    (hk : r.key? k = some t) {fault : Fault} : lib.find k.base t.file ≠ .error fault := by
  obtain ⟨l, hfind, -⟩ := h.key k t hk rfl
  rw [hfind]
  exact nofun

/-- Where a key is found does not lead back, and what is waited for there has no fault. -/
theorem found {k : Key} {t : KeyTask} (h : Faultless lib loads r t.load) (hk : r.key? k = some t)
    {l : Location} (hfind : lib.find k.base t.file = .ok l) :
    l.text ∉ t.ancestry ∧ ∀ o, locationOutcome? r l = some o → ∃ t, o = .ok t := by
  obtain ⟨l', hfind', hl'⟩ := h.key k t hk rfl
  rw [hfind] at hfind'
  cases hfind'
  exact hl'

theorem location_imports {l : Location} {t : LocationTask} (h : Faultless lib loads r t.load)
    (hsound : Sound lib loads r) (hl : r.location? l = some t) {raw : Text}
    (hfetch : lib.fetch l = .ok raw) : ∃ is, lib.imports l.text raw = .ok is := by
  obtain ⟨is, himports, -⟩ := h.source _ _ _ (hsound.staged_of_location hl) (.location hl hfetch)
  exact ⟨is, himports⟩

end Faultless

/-! ## When a load has succeeded -/

section Success

variable {lib : Library} {loads : List Load} {r : Resolution}

/-- A load that has a text is finished with it. -/
theorem Sound.finished_of_succeeded (h : Sound lib loads r) {n : Nat} {load : Load}
    (hload : loads[n]? = some load) (hsucceeded : Succeeded r n) :
    ∃ t text, Finished lib r load.address load.text [load.address] (fun _ => t) (.ok text) := by
  obtain ⟨i, text, hi⟩ := hsucceeded
  obtain ⟨load', hload', t, hfinished⟩ := h.inlinings i n _ hi
  rw [hload] at hload'
  cases hload'
  exact ⟨t, text, hfinished⟩

/-- So is a location. -/
theorem Sound.finished_of_outcome (h : Sound lib loads r) {l : Location} {t : LocationTask}
    (hl : r.location? l = some t) {text : Text} (ho : locationOutcome? r l = some (.ok text)) :
    ∃ raw, lib.fetch l = .ok raw ∧ Finished lib r l.text raw (l.text :: t.ancestry)
      (fill raw (Directive.scan raw)) (.ok text) := by
  obtain ⟨t', hl', hphase⟩ := locationOutcome?_eq_some.mp ho
  rw [hl] at hl'
  cases hl'
  have hsound := (h.locations l t hl).2
  rw [hphase] at hsound
  rcases hsound with ⟨fault, -, hfault⟩ | ⟨raw, hfetch, hfinished⟩
  · cases hfault
  · exact ⟨raw, hfetch, hfinished⟩

end Success

end Resolution

namespace Way

/-- The task at the end of a way has a text. -/
def Succeeds (r : Resolution) : Way → Prop
  | load n => Succeeded r n
  | key _ i => ∃ t, keyOutcome? r i.key = some (.ok t)
  | location _ l => ∃ t, locationOutcome? r l = some (.ok t)

variable {lib : Library} {loads : List Load} {r : Resolution} {w : Way}

theorem Stands.number_lt (hw : w.Stands lib loads r) : w.number < loads.length := by
  induction hw with
  | load hn => exact hn
  | key _ _ _ _ _ _ ih => exact ih
  | location _ _ _ ih => exact ih

/-- When a load has succeeded, so has all that it led to. -/
theorem Stands.succeeds (hw : w.Stands lib loads r) (h : Sound lib loads r)
    (hn : Succeeded r w.number) : w.Succeeds r := by
  induction hw with
  | load => exact hn
  | @key way i t hway hasks hk hfile hload hancestry ih =>
    cases way with
    | key => exact hasks.elim
    | load n =>
      obtain ⟨load, is, hload, himports, hi⟩ := hasks
      obtain ⟨_, _, hfinished⟩ := h.finished_of_succeeded hload hn
      exact hfinished.keyOutcome?_of_ok himports hi
    | location way l =>
      obtain ⟨raw, is, hfetch, himports, hi⟩ := hasks
      obtain ⟨-, -, t', hl, -⟩ := hway.of_location h
      obtain ⟨text, ho⟩ := ih hn
      obtain ⟨raw', hfetch', hfinished⟩ := h.finished_of_outcome hl ho
      rw [hfetch] at hfetch'
      cases hfetch'
      exact hfinished.keyOutcome?_of_ok himports hi
  | @location way i l t hway hl hkey ih =>
    obtain ⟨text, ho⟩ := ih hn
    obtain ⟨⟨tk, hk, -, -, hfind, -⟩, -⟩ := h.locations l t hl
    obtain ⟨l', hfind', ho'⟩ := h.exists_location_of_ok hk (hkey ▸ ho)
    rw [hfind] at hfind'
    cases hfind'
    exact ⟨text, ho'⟩

end Way

namespace Resolution

variable {lib : Library} {loads : List Load} {r : Resolution}

/-- A task that works on a load that has succeeded ends in a text. -/
theorem Sound.keyOutcome?_of_succeeded (h : Sound lib loads r) {k : Key} {t : KeyTask}
    (hk : r.key? k = some t) (hn : Succeeded r t.load) :
    ∃ text, keyOutcome? r k = some (.ok text) := by
  obtain ⟨w, hw, hnumber, -⟩ := h.exists_way_key hk
  exact hw.succeeds h (by rw [Way.number, hnumber]; exact hn)

theorem Sound.locationOutcome?_of_succeeded (h : Sound lib loads r) {l : Location}
    {t : LocationTask} (hl : r.location? l = some t) (hn : Succeeded r t.load) :
    ∃ text, locationOutcome? r l = some (.ok text) := by
  obtain ⟨w, hw, hnumber, -⟩ := h.exists_way_location hl
  exact hw.succeeds h (by rw [Way.number, hnumber]; exact hn)

theorem Sound.faultless_of_succeeded (h : Sound lib loads r) {n : Nat} (hn : Succeeded r n) :
    Faultless lib loads r n where
  source ancestry address source hstaged horigin := by
    have himports : ∀ {finish : List Text → Text} {text : Text},
        Finished lib r address source ancestry finish (.ok text) →
        ∃ is, lib.imports address source = .ok is ∧ ∀ i ∈ is, i.key.text ∉ ancestry ∧
          ∀ o, keyOutcome? r i.key = some o → ∃ t, o = .ok t := by
      intro finish text hfinished
      obtain ⟨is, himports, his⟩ := hfinished.exists_imports
      refine ⟨is, himports, fun i hi => ⟨(his i hi).1, fun o ho => ?_⟩⟩
      obtain ⟨t, ht⟩ := (his i hi).2
      rw [ho] at ht
      exact ⟨t, Option.some.inj ht⟩
    cases horigin with
    | load hload =>
      obtain ⟨_, _, hfinished⟩ := h.finished_of_succeeded hload hn
      exact himports hfinished
    | location hl hfetch =>
      obtain ⟨text, ho⟩ := h.locationOutcome?_of_succeeded hl hn
      obtain ⟨raw, hfetch', hfinished⟩ := h.finished_of_outcome hl ho
      rw [hfetch] at hfetch'
      cases hfetch'
      exact himports hfinished
  key k t hk hload := by
    obtain ⟨text, ho⟩ := h.keyOutcome?_of_succeeded hk (hload.symm ▸ hn)
    obtain ⟨t', hk', hphase⟩ := keyOutcome?_eq_some.mp ho
    rw [hk] at hk'
    cases hk'
    have hsound := (h.keys k t hk).2.2
    rw [hphase] at hsound
    rcases hsound with ⟨fault, -, hfault⟩ | ⟨l, hfind, ⟨-, hfault⟩ | ⟨hnot, hl⟩⟩
    · cases hfault
    · cases hfault
    · refine ⟨l, hfind, hnot, fun o ho => ?_⟩
      rw [hl] at ho
      exact ⟨text, (Option.some.inj ho).symm⟩
  location l t hl hload := by
    obtain ⟨text, ho⟩ := h.locationOutcome?_of_succeeded hl (hload.symm ▸ hn)
    obtain ⟨raw, hfetch, -⟩ := h.finished_of_outcome hl ho
    exact ⟨raw, hfetch⟩

/-- When all loads have succeeded, no task meets a fault. -/
theorem Sound.faultless (h : Sound lib loads r) (hall : ∀ n < loads.length, Succeeded r n)
    (n : Nat) : Faultless lib loads r n := by
  by_cases hn : n < loads.length
  · exact h.faultless_of_succeeded (hall n hn)
  · have hstaged : ¬Staged r n := by
      rintro ⟨i, phase, hi, -⟩
      obtain ⟨load, hload, -⟩ := h.inlinings i n _ hi
      exact hn (List.getElem?_eq_some_iff.mp hload).1
    refine ⟨fun _ _ _ h' => absurd h' hstaged, fun k t hk hload => ?_, fun l t hl hload => ?_⟩
    · exact absurd (hload ▸ (h.keys k t hk).1.1) hstaged
    · exact absurd (hload ▸ h.staged_of_location hl) hstaged

end Resolution

end StyleBatch
