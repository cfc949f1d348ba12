import StyleBatch.Proofs.Resolution.Sound
import StyleBatch.Proofs.Way

/-!
# Tasks stand on ways

A way stands in a resolution if the tasks on it were started one by the other.  Every task is at
the end of a way that stands (`Sound.exists_way_key`, `Sound.exists_way_location`), the way is
open (`Stands.open`), and no other way that stands has the same end (`Stands.unique`).
-/

namespace StyleBatch

open Resolution

namespace Way

/-- The tasks on a way were started one by the other. -/
inductive Stands (lib : Library) (loads : List Load) (r : Resolution) : Way → Prop
  | load {n : Nat} : n < loads.length → Staged r n → Stands lib loads r (load n)
  | key {way : Way} {i : Import} {t : KeyTask} : Stands lib loads r way → way.Asks lib loads i →
      r.key? i.key = some t → t.file = i.file → t.load = way.number →
      t.ancestry = way.ancestry loads → Stands lib loads r (key way i)
  | location {way : Way} {i : Import} {l : Location} {t : LocationTask} :
      Stands lib loads r (key way i) → r.location? l = some t → t.key = i.key →
      Stands lib loads r (location (key way i) l)

variable {lib : Library} {loads : List Load} {r : Resolution} {w w' : Way}

/-- What the task at the end of a way knows of it. -/
theorem Stands.of_key {i : Import} (h : (Way.key w i).Stands lib loads r) :
    w.Stands lib loads r ∧ w.Asks lib loads i ∧ ∃ t, r.key? i.key = some t ∧ t.file = i.file ∧
      t.load = w.number ∧ t.ancestry = w.ancestry loads := by
  cases h with
  | key hw hasks hk hfile hload hancestry => exact ⟨hw, hasks, _, hk, hfile, hload, hancestry⟩

theorem Stands.of_location {l : Location} (hsound : Sound lib loads r)
    (h : (Way.location w l).Stands lib loads r) : w.Stands lib loads r ∧ w.Finds lib loads l ∧
      ∃ t, r.location? l = some t ∧ t.load = w.number ∧ t.ancestry = w.ancestry loads := by
  cases h with
  | @location way i _ t hw hl hkey =>
    obtain ⟨-, -, tk, hk, hfile, hload, hancestry⟩ := hw.of_key
    obtain ⟨⟨tk', hk', hload', hancestry', hfind, hnot⟩, -⟩ := hsound.locations l t hl
    rw [hkey, hk] at hk'
    cases hk'
    rw [hkey, hfile] at hfind
    rw [hancestry] at hnot
    refine ⟨hw, ⟨hfind, hnot⟩, t, hl, by rw [hload', hload]; rfl, ?_⟩
    rw [hancestry', hancestry, hkey]
    rfl

/-- A way goes on standing. -/
theorem Stands.later {r' : Resolution} (h : w.Stands lib loads r) (hlater : Later r r') :
    w.Stands lib loads r' := by
  induction h with
  | load hn hstaged => exact .load hn (hlater.staged _ hstaged)
  | key _ hasks hk hfile hload hancestry ih =>
    obtain ⟨phase, hk', -⟩ := hlater.key _ _ hk
    exact .key ih hasks hk' hfile hload hancestry
  | location _ hl hkey ih =>
    obtain ⟨phase, hl', -⟩ := hlater.location _ _ hl
    exact .location ih hl' hkey

/-- A way that stands is open. -/
theorem Stands.open (h : w.Stands lib loads r) (hsound : Sound lib loads r) :
    w.Open lib loads := by
  induction h with
  | load hn => exact .load hn
  | key _ hasks hk hfile hload hancestry ih =>
    refine ih.key hasks ?_
    rw [← hancestry]
    exact (hsound.keys _ _ hk).2.1
  | location hw hl hkey ih =>
    exact ih.location (Stands.of_location hsound (hw.location hl hkey)).2.1

/-- Of two ways to one end only one stands. -/
theorem Stands.unique (hsound : Sound lib loads r) (h : w.Stands lib loads r)
    (h' : w'.Stands lib loads r) (hnode : w.node = w'.node) : w = w' := by
  induction h generalizing w' with
  | @load n _ _ =>
    cases w' with
    | load n' =>
      cases hnode
      rfl
    | key => cases hnode
    | location => cases hnode
  | @key way i t hw hasks hk hfile hload hancestry ih =>
    cases w' with
    | load => cases hnode
    | location => cases hnode
    | key way' i' =>
      obtain ⟨hw', hasks', t', hk', hfile', hload', hancestry'⟩ := h'.of_key
      have hkey : i.key = i'.key := by
        injection hnode
      rw [← hkey, hk] at hk'
      cases hk'
      have hi : i = i' := by
        cases i
        cases i'
        simp_all
      subst hi
      -- Both sources know the same load and the same ancestry.
      have hway : way = way' := by
        rw [hload] at hload'
        rw [hancestry] at hancestry'
        cases way with
        | key => exact hasks.elim
        | load n =>
          cases way' with
          | key => exact hasks'.elim
          | load n' => exact congrArg Way.load hload'
          | location way' l' =>
            obtain ⟨hway', -⟩ := Stands.of_location hsound hw'
            have hlength := congrArg List.length hancestry'
            cases hway' <;> simp [ancestry] at hlength
        | location way l =>
          obtain ⟨hway, -⟩ := Stands.of_location hsound hw
          cases way' with
          | key => exact hasks'.elim
          | load n' =>
            have hlength := congrArg List.length hancestry'
            cases hway <;> simp [ancestry] at hlength
          | location way' l' =>
            refine ih hw' ?_
            have htext : l.text = l'.text := (List.cons.inj hancestry').1
            cases l
            cases l'
            exact congrArg (fun t => Node.location ⟨t⟩) htext
      rw [hway]
  | @location way i l t hw hl hkey ih =>
    cases w' with
    | load => cases hnode
    | key => cases hnode
    | location way' l' =>
      have hll' : l = l' := by
        injection hnode
      subst hll'
      cases h' with
      | @location way' i' _ t' hw' hl' hkey' =>
        rw [hl] at hl'
        cases hl'
        rw [ih hw' (by rw [node, node, ← hkey, hkey'])]

end Way

namespace Resolution

variable {lib : Library} {loads : List Load} {r : Resolution}

/-- Every key is at the end of a way that stands. -/
theorem Sound.exists_way_key (h : Sound lib loads r) {k : Key} {t : KeyTask}
    (hk : r.key? k = some t) : ∃ w, (Way.key w ⟨k, t.file⟩).Stands lib loads r ∧
      w.number = t.load ∧ w.ancestry loads = t.ancestry := by
  -- The ancestry of what asked is shorter.
  induction hn : t.ancestry.length using Nat.strong_induction_on generalizing k t with
  | h n ih =>
    obtain ⟨⟨hstaged, address, source, is, horigin, himports, hi⟩, hnot, -⟩ := h.keys k t hk
    generalize hload : t.load = m at horigin hstaged
    generalize hancestry : t.ancestry = ancestry at horigin
    cases horigin with
    | @load _ load hloads =>
      have hm : m < loads.length := (List.getElem?_eq_some_iff.mp hloads).1
      have haddress := Way.ancestry_load hloads
      refine ⟨.load m, ?_, rfl, haddress⟩
      exact .key (.load hm hstaged) ⟨load, is, hloads, himports, hi⟩ hk rfl hload
        (hancestry.trans haddress.symm)
    | @location l u _ hl hfetch =>
      obtain ⟨⟨tk, htk, hload', hancestry', hfind, -⟩, -⟩ := h.locations l u hl
      have hlt : tk.ancestry.length < n := by
        rw [← hn, hancestry, hancestry', List.length_cons, List.length_cons]
        omega
      obtain ⟨w, hw, hnumber, hway⟩ := ih _ hlt htk rfl
      have hu : (Way.location (.key w ⟨u.key, tk.file⟩) l).ancestry loads = l.text :: u.ancestry := by
        rw [hancestry', ← hway]
        rfl
      refine ⟨.location (.key w ⟨u.key, tk.file⟩) l, ?_, hnumber.trans hload'.symm, hu⟩
      refine .key (.location hw hl rfl) ⟨source, is, hfetch, himports, hi⟩ hk rfl ?_ ?_
      · exact hload.trans (hload'.trans hnumber.symm)
      · exact hancestry.trans hu.symm

/-- Every location is at the end of a way that stands. -/
theorem Sound.exists_way_location (h : Sound lib loads r) {l : Location} {t : LocationTask}
    (hl : r.location? l = some t) : ∃ w, (Way.location w l).Stands lib loads r ∧
      w.number = t.load ∧ w.ancestry loads = t.ancestry := by
  obtain ⟨⟨tk, htk, hload, hancestry, -⟩, -⟩ := h.locations l t hl
  obtain ⟨w, hw, hnumber, hway⟩ := h.exists_way_key htk
  refine ⟨_, hw.location hl rfl, hnumber.trans hload.symm, ?_⟩
  rw [hancestry, ← hway]
  rfl

end Resolution

end StyleBatch
