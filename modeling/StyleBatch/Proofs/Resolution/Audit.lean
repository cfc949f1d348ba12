import StyleBatch.Proofs.Resolution.Asking
import StyleBatch.Proofs.Resolution.Attachment
import StyleBatch.Proofs.Resolution.Fetches

/-!
# The audit trail of imports

When all loads of a run have succeeded, the log has one event for every directive of the loads and
of the files that were fetched, and which one it is tells how the import was answered.

* `Audited`: claims, tasks and log agree, and `Recorded.audited`: as long as no task meets a fault,
  they always do.
* `exists_pairs`: lists with the same images can be put side by side.
* `Recorded.exists_attachments`: every directive is attached, and the events say to what.
* `imports_audited`: the trail, with the directives, what they attached to and the events.
-/

namespace StyleBatch

open Resolution

/-! ## Side by side -/

section Pairs

variable {α β γ : Type}

/-- Lists with the same images are the two sides of a list of pairs with the same image. -/
theorem exists_pairs {f : α → γ} {g : β → γ} {xs : List α} {ys : List β}
    (h : (xs.map f).Perm (ys.map g)) :
    ∃ zs : List (α × β), (zs.map Prod.fst).Perm xs ∧ (zs.map Prod.snd).Perm ys ∧
      ∀ z ∈ zs, f z.1 = g z.2 := by
  induction xs generalizing ys with
  | nil =>
    have hys : ys = [] := by simpa using h.symm
    subst hys
    exact ⟨[], .nil, .nil, nofun⟩
  | cons x xs ih =>
    obtain ⟨y, hy, hxy⟩ := List.mem_map.mp (h.subset List.mem_cons_self)
    obtain ⟨before, after, rfl⟩ := List.append_of_mem hy
    have hmiddle : (before ++ y :: after).Perm (y :: (before ++ after)) := List.perm_middle
    have hrest := h.trans (hmiddle.map g)
    rw [List.map_cons, List.map_cons, hxy, List.perm_cons] at hrest
    obtain ⟨zs, hfst, hsnd, hzs⟩ := ih hrest
    refine ⟨(x, y) :: zs, hfst.cons x, (hsnd.cons y).trans hmiddle.symm, fun z hz => ?_⟩
    rcases List.mem_cons.mp hz with rfl | hz
    · exact hxy.symm
    · exact hzs z hz

end Pairs

namespace Library

variable (lib : Library) (loads : List Load)

/-- The directives of all loads and of the files that were fetched. -/
def allOccurrences (fetched : List Text) : List Occurrence :=
  ((List.range loads.length).map Site.load ++ fetched.map fun text => Site.location ⟨text⟩).flatMap
    (lib.occurrences loads)

theorem site_of_mem_occurrences {s : Site} {o : Occurrence} (h : o ∈ lib.occurrences loads s) :
    o.site = s := by
  rw [occurrences] at h
  split at h
  · cases h
  · split at h
    · cases h
    · obtain ⟨e, -, rfl⟩ := List.mem_map.mp h
      rfl

/-- A site has no directive twice. -/
theorem nodup_occurrences (s : Site) : (lib.occurrences loads s).Nodup := by
  rw [occurrences]
  split
  · exact List.nodup_nil
  · split
    · exact List.nodup_nil
    · rename_i is _
      refine List.Nodup.of_map Occurrence.index ?_
      rw [List.map_map]
      change (is.zipIdx.map Prod.snd).Nodup
      rw [List.zipIdx_map_snd]
      exact List.nodup_range'

theorem nodup_allOccurrences {fetched : List Text} (h : fetched.Nodup) :
    (lib.allOccurrences loads fetched).Nodup := by
  rw [allOccurrences, List.nodup_flatMap]
  refine ⟨fun s _ => lib.nodup_occurrences loads s, ?_⟩
  have hsites : ((List.range loads.length).map Site.load ++
      fetched.map fun text => Site.location ⟨text⟩).Nodup := by
    refine List.Nodup.append (List.nodup_range.map fun n n' heq => ?_)
      (h.map fun text text' heq => ?_) ?_
    · cases heq
      rfl
    · cases heq
      rfl
    · intro s hload hlocation
      obtain ⟨n, -, rfl⟩ := List.mem_map.mp hload
      obtain ⟨text, -, heq⟩ := List.mem_map.mp hlocation
      cases heq
  refine hsites.imp ?_
  intro s s' hne o ho ho'
  refine hne ?_
  rw [← lib.site_of_mem_occurrences loads ho, lib.site_of_mem_occurrences loads ho']

end Library

namespace Resolution

variable {lib : Library} {loads : List Load} {claims : List Claim} {r r' : Resolution}

/-! ## Claims, tasks and log -/

/-- The claims are the work that the tasks have done, and the events that the log has or the tasks
lead to. -/
structure Audited (lib : Library) (loads : List Load) (claims : List Claim) (r : Resolution) :
    Prop where
  asks : claimants claims + pendingAsks lib loads r =
    begunAsks lib loads r + openings lib loads claims
  searches : claims.filterMap Claim.finder? + searches r = claims.filterMap Claim.newKey?
  events : r.world.log.imports + pendingEvents lib r = claims.filterMap (Claim.event? lib)

/-- As long as no task meets a fault, claims, tasks and log agree. -/
theorem Recorded.audited (h : Recorded lib loads claims r) (hf : ∀ n, Faultless lib loads r n) :
    Audited lib loads claims r := by
  induction h with
  | start => exact ⟨rfl, rfl, rfl⟩
  | @submit loads claims r load hr ih =>
    have hcoherent := hr.reached.coherent
    have hbegun : ∀ x ∈ r.inlinings, x.load < loads.length :=
      fun x hx => hcoherent.2 ▸ hcoherent.1.loads x hx
    have haudited := ih fun n => (hf n).of_submit
    refine ⟨?_, haudited.searches, haudited.events⟩
    rw [pendingAsks_addLoad lib loads hbegun, begunAsks_addLoad lib loads hbegun, openings_addLoad]
    exact haudited.asks
  | @begin loads claims r n hr hn _ ih =>
    have haudited := ih fun m => (hf m).of_later (.begin r n)
    refine ⟨?_, haudited.searches, ?_⟩
    · rw [pendingAsks_begin, begunAsks_begin, ← add_assoc, haudited.asks, add_right_comm]
    · rw [pendingEvents, total_begin]
      exact (congrArg (_ + ·) (add_zero _)).trans haudited.events
  | @poll loads claims r task hr hcan ih =>
    obtain ⟨hcoherent, -⟩ := hr.reached.coherent
    have hsound := hr.reached.sound
    have ht := transition_of_canStep hcoherent hcan
    have haudited := ih fun n => (hf n).of_later ht.later
    refine ⟨?_, ?_, ?_⟩
    · rw [claimants_append, openings_append, add_right_comm, add_assoc, ht.asks hsound hf,
        ← add_assoc, haudited.asks, ht.begunAsks, add_assoc]
    · rw [List.filterMap_append, List.filterMap_append, ← Multiset.coe_add, ← Multiset.coe_add,
        add_assoc, add_comm _ (searches _), ht.searches hf, ← add_assoc, haudited.searches]
    · have hbalanced := ht.events hcoherent hsound hf rfl
      rw [Balanced, haudited.events, Multiset.coe_add, ← List.filterMap_append] at hbalanced
      exact hbalanced
  | @elsewhere loads claims r world _ _ hlog ih =>
    have haudited := ih fun n => (hf n).of_later (.of_eq rfl rfl)
    refine ⟨haudited.asks, haudited.searches, ?_⟩
    rw [hlog]
    exact haudited.events

/-! ## When all loads have succeeded -/

/-- No task has anything left to do. -/
structure Over (r : Resolution) : Prop where
  keys : ∀ e ∈ r.cache.keys, ∃ o, e.2.phase = .settled o
  locations : ∀ e ∈ r.cache.locations, ∃ o, e.2.phase = .settled o
  inlinings : ∀ x ∈ r.inlinings, ∃ o, x.phase = .settled o

/-- When all loads have succeeded, every task is settled. -/
theorem Reached.over (h : Reached lib loads r) (hall : ∀ n < loads.length, Succeeded r n) :
    Over r := by
  obtain ⟨hcoherent, hlength⟩ := h.coherent
  have hsound := h.sound
  have hsettled : ∀ n < loads.length, (Way.load n).Settled r := by
    intro n hn
    obtain ⟨i, text, hi⟩ := hall n hn
    exact ⟨i, _, hi⟩
  refine ⟨fun e he => ?_, fun e he => ?_, fun x hx => ?_⟩
  · have hk := Table.get?_of_mem hcoherent.nodupKeys he
    obtain ⟨w, hw, hnumber, -⟩ := hsound.exists_way_key hk
    refine hsound.settled_of_key hk (hsettled _ ?_)
    exact hnumber ▸ hw.number_lt
  · have hl := Table.get?_of_mem hcoherent.nodupLocations he
    obtain ⟨w, hw, hnumber, -⟩ := hsound.exists_way_location hl
    refine hsound.settled_of_location hl (hsettled _ ?_)
    exact hnumber ▸ hw.number_lt
  · obtain ⟨i, hi⟩ := List.mem_iff_getElem?.mp hx
    exact hsound.settled_of_inlining hi (hsettled _ (hlength ▸ hcoherent.loads x hx))

namespace Over

variable (h : Over r)
include h

theorem pendingAsks_eq : pendingAsks lib loads r = 0 := by
  rw [pendingAsks, List.sum_eq_zero, List.sum_eq_zero, add_zero]
  · intro x hx
    obtain ⟨e, he, rfl⟩ := List.mem_map.mp hx
    obtain ⟨o, ho⟩ := h.locations e he
    rw [LocationTask.asks, ho]
  · intro x hx
    obtain ⟨y, hy, rfl⟩ := List.mem_map.mp hx
    obtain ⟨o, ho⟩ := h.inlinings y hy
    rw [Inlining.asks, ho]

theorem searches_eq : searches r = 0 := by
  refine List.sum_eq_zero fun x hx => ?_
  obtain ⟨e, he, rfl⟩ := List.mem_map.mp hx
  obtain ⟨o, ho⟩ := h.keys e he
  rw [KeyTask.searches, ho]

theorem pendingEvents_eq : pendingEvents lib r = 0 := by
  refine total_eq_zero _ (fun e he => ?_) (fun e he => ?_) fun x hx => ?_
  · obtain ⟨o, ho⟩ := h.keys e he
    change e.2.events lib e.1 = 0
    rw [KeyTask.events, ho]
  · obtain ⟨o, ho⟩ := h.locations e he
    change e.2.events lib e.1 = 0
    rw [LocationTask.events, ho]
  · obtain ⟨o, ho⟩ := h.inlinings x hx
    change x.events lib = 0
    rw [Inlining.events, ho]

end Over

/-- All loads have begun. -/
theorem Reached.perm_inlinings (h : Reached lib loads r)
    (hall : ∀ n < loads.length, Succeeded r n) :
    (r.inlinings.map Inlining.load).Perm (List.range loads.length) := by
  obtain ⟨hcoherent, hlength⟩ := h.coherent
  have hnodup : (r.inlinings.map Inlining.load).Nodup := by
    refine List.nodup_iff_injective_getElem.mpr ?_
    rintro ⟨i, hi⟩ ⟨j, hj⟩ heq
    rw [List.length_map] at hi hj
    refine Fin.ext (h.sound.once i j _ _ (List.getElem?_eq_getElem hi)
      (List.getElem?_eq_getElem hj) ?_)
    simpa using heq
  refine (List.perm_ext_iff_of_nodup hnodup List.nodup_range).mpr fun n => ?_
  rw [List.mem_range]
  constructor
  · intro hn
    obtain ⟨x, hx, rfl⟩ := List.mem_map.mp hn
    exact hlength ▸ hcoherent.loads x hx
  · intro hn
    obtain ⟨i, text, hi⟩ := hall n hn
    exact List.mem_map.mpr ⟨_, List.mem_of_getElem? hi, rfl⟩

/-- The locations that have a task are those that were fetched. -/
theorem Reached.perm_fetched (h : Reached lib loads r) (hall : ∀ n < loads.length, Succeeded r n) :
    ((Table.keys r.cache.locations).map Location.text).Perm r.fetched := by
  obtain ⟨hcoherent, -⟩ := h.coherent
  have hfetched := h.fetchedOnce
  have hover := h.over hall
  have hnodup : ((Table.keys r.cache.locations).map Location.text).Nodup :=
    hcoherent.nodupLocations.map fun l l' hll' => by cases l; cases l'; cases hll'; rfl
  refine (List.perm_ext_iff_of_nodup hnodup hfetched.nodup).mpr fun text => ?_
  rw [show text = (⟨text⟩ : Location).text from rfl, hfetched.mem_iff]
  constructor
  · intro hmem
    obtain ⟨l, hl, htext⟩ := List.mem_map.mp hmem
    obtain rfl : l = ⟨text⟩ := by cases l; exact congrArg Location.mk htext
    obtain ⟨t, ht⟩ := Option.isSome_iff_exists.mp (Table.mem_keys_iff.mp hl)
    obtain ⟨o, ho⟩ := hover.locations _ (Table.mem_of_get? ht)
    exact ⟨t, ht, by rw [show t.phase = _ from ho]; exact nofun⟩
  · rintro ⟨t, ht, -⟩
    refine List.mem_map_of_mem (Table.mem_keys_iff.mpr ?_)
    rw [show Table.get? r.cache.locations ⟨text⟩ = some t from ht]
    rfl

/-! ## The trail -/

/-- The directive that has claimed a key that was free, or one that was not. -/
def Claim.asker? (free : Bool) : Claim → Option Occurrence
  | .key o free' => if free' = free then some o else none
  | .location .. => none

/-- What the import of a directive was answered by: if its key was free, by what the key has
claimed. -/
def Attached (claims : List Claim) (o : Occurrence) : Attachment → Prop
  | .key => .key o false ∈ claims
  | .location l => .key o true ∈ claims ∧ .location o.target.key l false ∈ claims
  | .fetch l => .key o true ∈ claims ∧ .location o.target.key l true ∈ claims

theorem claimants_eq (claims : List Claim) :
    claimants claims =
      ↑(claims.filterMap (Claim.asker? false) ++ claims.filterMap (Claim.asker? true)) := by
  induction claims with
  | nil => rfl
  | cons claim claims ih =>
    rw [claimants] at ih ⊢
    rcases claim with ⟨o, free⟩ | ⟨k, l, free⟩
    · cases free
      · exact congrArg (o ::ₘ ·) ih
      · refine (congrArg (o ::ₘ ·) ih).trans ?_
        exact Multiset.coe_eq_coe.mpr List.perm_middle.symm
    · exact ih

theorem map_key_asker? (claims : List Claim) :
    (claims.filterMap (Claim.asker? true)).map (fun o => o.target.key) =
      claims.filterMap Claim.newKey? := by
  rw [List.map_filterMap]
  congr 1
  funext claim
  rcases claim with ⟨o, free⟩ | ⟨k, l, free⟩ <;> cases free <;> rfl

theorem map_fst_attachment? (claims : List Claim) :
    (claims.filterMap Claim.attachment?).map Prod.fst = claims.filterMap Claim.finder? := by
  rw [List.map_filterMap]
  congr 1
  funext claim
  rcases claim with ⟨o, free⟩ | ⟨k, l, free⟩ <;> cases free <;> rfl

theorem perm_event? (lib : Library) (claims : List Claim) :
    (claims.filterMap (Claim.event? lib)).Perm
      ((claims.filterMap (Claim.asker? false)).map
          (fun o => Attachment.key.event lib o.target.key) ++
        (claims.filterMap Claim.attachment?).map fun e => e.2.event lib e.1) := by
  induction claims with
  | nil => exact .nil
  | cons claim claims ih =>
    rcases claim with ⟨o, free⟩ | ⟨k, l, free⟩ <;> cases free
    · exact ih.cons _
    · exact ih
    · exact (ih.cons _).trans List.perm_middle.symm
    · exact (ih.cons _).trans List.perm_middle.symm

theorem filterMap_fetched? (claims : List Claim) :
    (claims.filterMap Claim.attachment?).filterMap (fun e => e.2.fetched?) =
      (claims.filterMap Claim.newLocation?).map Location.text := by
  rw [List.filterMap_filterMap, List.map_filterMap]
  congr 1
  funext claim
  rcases claim with ⟨o, free⟩ | ⟨k, l, free⟩ <;> cases free <;> rfl

theorem mem_of_asker? {free : Bool} {claims : List Claim} {o : Occurrence}
    (h : o ∈ claims.filterMap (Claim.asker? free)) : .key o free ∈ claims := by
  obtain ⟨claim, hmem, ho⟩ := List.mem_filterMap.mp h
  rcases claim with ⟨o', free'⟩ | ⟨k, l, free'⟩
  · rw [Claim.asker?] at ho
    split at ho
    · rename_i hfree
      cases hfree
      cases ho
      exact hmem
    · cases ho
  · cases ho

theorem attached_of_attachment? {claims : List Claim} {o : Occurrence} {a : Attachment}
    (ho : .key o true ∈ claims)
    (h : (o.target.key, a) ∈ claims.filterMap Claim.attachment?) : Attached claims o a := by
  obtain ⟨claim, hmem, ha⟩ := List.mem_filterMap.mp h
  rcases claim with ⟨o', free⟩ | ⟨k, l, free⟩
  · cases ha
  · cases free <;> cases ha <;> exact ⟨ho, hmem⟩

/-- Every directive that has claimed its key is attached, and the events are those of the
attachments. -/
theorem exists_trail (lib : Library) {claims : List Claim}
    (h : (claims.filterMap Claim.finder?).Perm (claims.filterMap Claim.newKey?)) :
    ∃ trail : List (Occurrence × Attachment),
      ((trail.map Prod.fst : List Occurrence) : Multiset Occurrence) = claimants claims ∧
      (claims.filterMap (Claim.event? lib)).Perm
        (trail.map fun e => e.2.event lib e.1.target.key) ∧
      (∀ o a, (o, a) ∈ trail → Attached claims o a) ∧
      (trail.filterMap fun e => e.2.fetched?).Perm
        ((claims.filterMap Claim.newLocation?).map Location.text) := by
  rw [← map_fst_attachment?, ← map_key_asker?] at h
  obtain ⟨pairs, howners, hattachments, hkeys⟩ := exists_pairs h.symm
  refine ⟨(claims.filterMap (Claim.asker? false)).map (fun o => (o, .key)) ++
    pairs.map fun e => (e.1, e.2.2), ?_, ?_, ?_, ?_⟩
  · rw [List.map_append, List.map_map, List.map_map, claimants_eq]
    refine Multiset.coe_eq_coe.mpr (List.Perm.append ?_ howners)
    exact .of_eq (List.map_id _)
  · rw [List.map_append, List.map_map, List.map_map]
    refine (perm_event? lib claims).trans (.append_left _ ?_)
    have hevents : pairs.map (fun e => e.2.2.event lib e.1.target.key) =
        (pairs.map Prod.snd).map fun e => e.2.event lib e.1 := by
      rw [List.map_map]
      refine List.map_congr_left fun e he => ?_
      rw [hkeys e he]
      rfl
    exact (hattachments.symm.map _).trans (.of_eq hevents.symm)
  · intro o a hmem
    rcases List.mem_append.mp hmem with hmem | hmem
    · obtain ⟨o', ho, heq⟩ := List.mem_map.mp hmem
      cases heq
      exact mem_of_asker? ho
    · obtain ⟨⟨o', k, a'⟩, he, heq⟩ := List.mem_map.mp hmem
      cases heq
      obtain rfl : o'.target.key = k := hkeys _ he
      have ho := mem_of_asker? (howners.subset (List.mem_map_of_mem he))
      exact attached_of_attachment? ho (hattachments.subset (List.mem_map_of_mem he))
  · rw [List.filterMap_append, List.filterMap_map, List.filterMap_map, ← filterMap_fetched?]
    have hnone : ∀ os : List Occurrence,
        os.filterMap (fun o => (Prod.mk o Attachment.key).2.fetched?) = [] := by
      intro os
      exact List.filterMap_eq_nil_iff.mpr fun _ _ => rfl
    have hpairs : pairs.filterMap (fun e => e.2.2.fetched?) =
        (pairs.map Prod.snd).filterMap fun e => e.2.fetched? := by
      rw [List.filterMap_map]
      rfl
    exact (Eq.trans (congrArg (· ++ _) (hnone _)) hpairs) ▸ hattachments.filterMap _

/-- What a directive is attached to is settled by the claims. -/
theorem Attached.unique {claims : List Claim} (hasked : (claims.filterMap Claim.occurrence?).Nodup)
    (hfound : (claims.filterMap Claim.finder?).Nodup) {o : Occurrence} {a a' : Attachment}
    (h : Attached claims o a) (h' : Attached claims o a') : a = a' := by
  have hfree : ∀ {free free' : Bool}, .key o free ∈ claims → .key o free' ∈ claims →
      free = free' := by
    intro free free' hmem hmem'
    have heq := eq_of_filterMap_nodup hasked hmem hmem' (y := o) rfl rfl
    cases heq
    rfl
  have hlocation : ∀ {l l' : Location} {free free' : Bool},
      .location o.target.key l free ∈ claims → .location o.target.key l' free' ∈ claims →
      l = l' ∧ free = free' := by
    intro l l' free free' hmem hmem'
    have heq := eq_of_filterMap_nodup hfound hmem hmem' (y := o.target.key) rfl rfl
    cases heq
    exact ⟨rfl, rfl⟩
  cases a with
  | key =>
    cases a' with
    | key => rfl
    | location | fetch => cases hfree h h'.1
  | location l =>
    cases a' with
    | key => cases hfree h.1 h'
    | location l' => rw [(hlocation h.2 h'.2).1]
    | fetch l' => cases (hlocation h.2 h'.2).2
  | fetch l =>
    cases a' with
    | key => cases hfree h.1 h'
    | location l' => cases (hlocation h.2 h'.2).2
    | fetch l' => rw [(hlocation h.2 h'.2).1]

theorem exists_of_attached {claims : List Claim} {o : Occurrence} {a : Attachment}
    (h : Attached claims o a) : o ∈ claims.filterMap Claim.occurrence? := by
  have hmem : ∃ free, .key o free ∈ claims := by
    cases a with
    | key => exact ⟨_, h⟩
    | location | fetch => exact ⟨_, h.1⟩
  obtain ⟨free, hmem⟩ := hmem
  exact List.mem_filterMap.mpr ⟨_, hmem, rfl⟩

/-- When all loads have succeeded, every directive of the loads and of the files that were fetched is
attached, and the log has the event of each of them, and no other event about an import. -/
theorem Recorded.exists_attachments (h : Recorded lib loads claims r)
    (hall : ∀ n < loads.length, Succeeded r n) :
    ∃ trail : List (Occurrence × Attachment),
      (trail.map Prod.fst).Perm (lib.allOccurrences loads r.fetched) ∧
      (∀ o a, (o, a) ∈ trail ↔ Attached claims o a) ∧
      r.world.log.imports.Perm (trail.map fun e => e.2.event lib e.1.target.key) ∧
      (trail.filterMap fun e => e.2.fetched?).Perm r.fetched := by
  have hr := h.reached
  have haudited := h.audited (hr.sound.faultless hall)
  have hover := hr.over hall
  have hfetched := hr.perm_fetched hall
  have hfound : (claims.filterMap Claim.finder?).Perm (claims.filterMap Claim.newKey?) := by
    have hsearches := haudited.searches
    rw [hover.searches_eq, add_zero] at hsearches
    exact Multiset.coe_eq_coe.mp hsearches
  obtain ⟨trail, htrail, hevents, hattached, hlocations⟩ := exists_trail lib hfound
  have hasked : claimants claims = (lib.allOccurrences loads r.fetched : Multiset Occurrence) := by
    have hasks := haudited.asks
    rw [hover.pendingAsks_eq, add_zero] at hasks
    rw [hasks, Library.allOccurrences, List.flatMap_append, ← Multiset.coe_add]
    refine congrArg₂ (· + ·) ?_ ?_
    · rw [List.flatMap_map]
      exact Multiset.coe_eq_coe.mpr ((hr.perm_inlinings hall).flatMap_right _)
    · rw [openings, h.locations, List.flatMap_map]
      refine Multiset.coe_eq_coe.mpr (List.Perm.trans ?_ (hfetched.flatMap_right _))
      rw [List.flatMap_map]
  refine ⟨trail, Multiset.coe_eq_coe.mp (htrail.trans hasked),
    fun o a => ⟨hattached o a, fun ha => ?_⟩, ?_,
    (hlocations.trans (.of_eq (congrArg _ h.locations))).trans hfetched⟩
  · have hmem : o ∈ trail.map Prod.fst :=
      (Multiset.coe_eq_coe.mp htrail).symm.subset (exists_of_attached ha)
    obtain ⟨⟨o', a'⟩, he, rfl⟩ := List.mem_map.mp hmem
    have hkeys : (claims.filterMap Claim.finder?).Nodup :=
      hfound.nodup_iff.mpr (h.keys ▸ hr.coherent.1.nodupKeys)
    have hnodup := lib.nodup_allOccurrences loads hr.fetchedOnce.nodup
    rw [Attached.unique ((Multiset.coe_eq_coe.mp hasked).nodup_iff.mpr hnodup) hkeys ha
      (hattached o' a' he)]
    exact he
  · have hlog := haudited.events
    rw [hover.pendingEvents_eq, add_zero] at hlog
    exact (Multiset.coe_eq_coe.mp hlog).trans hevents

/-- When all loads have succeeded, there is a trail with every directive of the loads and of the
files that were fetched, each once, and with what its import was answered by, and the log has the
event of each of them, and no other event about an import.  So every location that was fetched has
one event that says so. -/
theorem imports_audited (h : Recorded lib loads claims r)
    (hall : ∀ n < loads.length, Succeeded r n) :
    ∃ trail : List (Occurrence × Attachment),
      (trail.map Prod.fst).Nodup ∧
      (trail.map Prod.fst).Perm (lib.allOccurrences loads r.fetched) ∧
      (∀ o a, (o, a) ∈ trail ↔ Attached claims o a) ∧
      r.world.log.imports.Perm (trail.map fun e => e.2.event lib e.1.target.key) ∧
      (trail.filterMap fun e => e.2.fetched?).Perm r.fetched ∧
      ∀ text ∈ r.fetched, ∃ raw, lib.fetch ⟨text⟩ = .ok raw := by
  have hr := h.reached
  obtain ⟨trail, hperm, hattached, hlog, hfetched⟩ := h.exists_attachments hall
  have hnodup : (lib.allOccurrences loads r.fetched).Nodup :=
    lib.nodup_allOccurrences loads hr.fetchedOnce.nodup
  refine ⟨trail, hperm.nodup_iff.mpr hnodup, hperm, hattached, hlog, hfetched, ?_⟩
  intro text hmem
  obtain ⟨t, ht, -⟩ := (hr.fetchedOnce.mem_iff ⟨text⟩).mp hmem
  exact (hr.sound.faultless hall t.load).location _ t ht rfl

/-- Two loads; the first file is asked for by its key, by that key again, and by another key. -/
def crossLoads : List Load :=
  [⟨"s/x", "@import \"a\";", []⟩, ⟨"s/y", "@import 'a';@import \"../s/a\";", []⟩]

/-- Each of the three directives has its own kind of event. -/
theorem imports_audited_cross :
    ∃ (claims : List Claim) (trail : List (Occurrence × Attachment)),
      Recorded smallLibrary crossLoads claims (play smallLibrary crossLoads 20) ∧
      (trail.map fun e => (e.1.site, e.1.index)).Perm [(.load 0, 0), (.load 1, 0), (.load 1, 1)] ∧
      (∀ o a, (o, a) ∈ trail ↔ Attached claims o a) ∧
      (trail.map fun e => e.2.event smallLibrary e.1.target.key).Perm
        [.importFetched "s/|./_a.scss" "s/_a.scss" 1, .importShared "s/|./_a.scss" none,
          .importShared "s/|../s/_a.scss" (some "s/_a.scss")] := by
  have hall : ∀ n < crossLoads.length, Succeeded (play smallLibrary crossLoads 20) n := by
    intro n hn
    match n, hn with
    | 0, _ => exact ⟨0, "x;", by decide +kernel⟩
    | 1, _ => exact ⟨1, ";;", by decide +kernel⟩
  obtain ⟨claims, hclaims⟩ := recorded_play smallLibrary crossLoads 20
  obtain ⟨trail, -, hperm, hattached, hlog, -⟩ := imports_audited hclaims hall
  have hsites : (smallLibrary.allOccurrences crossLoads
      (play smallLibrary crossLoads 20).fetched).map (fun o => (o.site, o.index)) =
      [(.load 0, 0), (.load 1, 0), (.load 1, 1)] := by decide +kernel
  have hevents : (play smallLibrary crossLoads 20).world.log.imports =
      [.importFetched "s/|./_a.scss" "s/_a.scss" 1, .importShared "s/|./_a.scss" none,
        .importShared "s/|../s/_a.scss" (some "s/_a.scss")] := by decide +kernel
  refine ⟨claims, trail, hclaims, ?_, hattached, hevents ▸ hlog.symm⟩
  have hmap := hperm.map fun o => (o.site, o.index)
  rw [List.map_map, hsites] at hmap
  exact hmap

end Resolution

end StyleBatch
