import StyleBatch.Proofs.Resolution.Transition

/-!
# Totals over the tasks

A `Weight` says what every task counts for, where a source whose imports are being inlined counts
for its branches.  `total` adds it all up.

* `total_setKey`, `total_setLocation`, `total_setInlining`, `total_setBranch`: a total moves by
  the task that changed.
* `total_setKey_of_none`, `total_setLocation_of_none`: and by the task that is new.
* `exists_of_mem_total`, `mem_total_of_branch`: what is in a total is what a task counts for.
* `total_eq_zero`: tasks that count for nothing have no total.
-/

namespace StyleBatch.Resolution

/-- What tasks count for. -/
structure Weight (M : Type) [AddCancelCommMonoid M] where
  key : Key → KeyTask → M
  location : Location → LocationTask → M
  inlining : Inlining → M
  branch : Branch → M
  /-- What a source with branches counts for itself. -/
  source : M
  location_expanding : ∀ l k n ancestry raw bs,
    location l ⟨k, n, ancestry, .expanding raw bs⟩ = source + (bs.map branch).sum
  inlining_expanding : ∀ n bs, inlining ⟨n, .expanding bs⟩ = source + (bs.map branch).sum

variable {M : Type} [AddCancelCommMonoid M] (weight : Weight M)

def total (r : Resolution) : M :=
  (r.cache.keys.map fun e => weight.key e.1 e.2).sum +
    (r.cache.locations.map fun e => weight.location e.1 e.2).sum +
    (r.inlinings.map weight.inlining).sum

variable {r : Resolution}

/-- Only the cache and the inlinings count. -/
theorem total_congr {r' : Resolution} (hcache : r'.cache = r.cache)
    (hinlinings : r'.inlinings = r.inlinings) : total weight r' = total weight r := by
  rw [total, total, hcache, hinlinings]

theorem total_begin (r : Resolution) (n : Nat) :
    total weight (r.begin n) = total weight r + weight.inlining ⟨n, .queued⟩ := by
  have hsum : ((r.begin n).inlinings.map weight.inlining).sum =
      (r.inlinings.map weight.inlining).sum + weight.inlining ⟨n, .queued⟩ := by
    rw [begin, List.map_append, List.sum_append, List.map_singleton, List.sum_singleton]
  rw [total, hsum, ← add_assoc]
  rfl

theorem total_setKey {k : Key} {t : KeyTask} (hk : r.key? k = some t) (phase : KeyPhase) :
    total weight (r.setKey k t phase) + weight.key k t =
      total weight r + weight.key k { t with phase } := by
  have hsum := Table.sum_set weight.key hk { t with phase }
  rw [total, total]
  simp only [setKey, Cache.setKey]
  rw [add_right_comm _ _ (weight.key k t), add_right_comm _ _ (weight.key k t), hsum]
  abel

theorem total_setKey_of_none {k : Key} (hk : r.key? k = none) (t : KeyTask) (phase : KeyPhase) :
    total weight (r.setKey k t phase) = total weight r + weight.key k { t with phase } := by
  have hsum := Table.sum_set_new weight.key hk { t with phase }
  rw [total, total]
  simp only [setKey, Cache.setKey]
  rw [hsum]
  abel

theorem total_setLocation {l : Location} {t : LocationTask} (hl : r.location? l = some t)
    (phase : LocationPhase) : total weight (r.setLocation l t phase) + weight.location l t =
      total weight r + weight.location l { t with phase } := by
  have hsum := Table.sum_set weight.location hl { t with phase }
  rw [total, total]
  simp only [setLocation, Cache.setLocation]
  rw [add_right_comm _ _ (weight.location l t), add_assoc _ _ (weight.location l t), hsum]
  abel

theorem total_setLocation_of_none {l : Location} (hl : r.location? l = none) (t : LocationTask)
    (phase : LocationPhase) : total weight (r.setLocation l t phase) =
      total weight r + weight.location l { t with phase } := by
  have hsum := Table.sum_set_new weight.location hl { t with phase }
  rw [total, total]
  simp only [setLocation, Cache.setLocation]
  rw [hsum]
  abel

theorem total_setInlining {i n : Nat} {old : InliningPhase} (hi : r.inlinings[i]? = some ⟨n, old⟩)
    (phase : InliningPhase) : total weight (r.setInlining i phase) + weight.inlining ⟨n, old⟩ =
      total weight r + weight.inlining ⟨n, phase⟩ := by
  have hsum := sum_map_modify (f := fun x => { x with phase }) weight.inlining hi
  rw [total, total]
  simp only [setInlining]
  rw [add_assoc, hsum]
  abel

theorem total_setBranch {owner : Owner} {j : Nat} {b : Branch}
    (hj : (branches r owner)[j]? = some b) (phase : BranchPhase) :
    total weight (r.setBranch owner j phase) + weight.branch b =
      total weight r + weight.branch { b with phase } := by
  have hsource : ∀ {s s' : M}, s' + weight.branch b = s + weight.branch { b with phase } →
      weight.source + s' + weight.branch b =
        weight.source + s + weight.branch { b with phase } := by
    intro s s' hsum
    rw [add_assoc, hsum, add_assoc]
  rcases owner_of_branch hj with ⟨i, n, bs, rfl, hi, hb⟩ | ⟨l, t, raw, bs, rfl, hl, ht, hb⟩
  · have htotal := total_setInlining weight hi (.expanding (withPhase bs j phase))
    rw [weight.inlining_expanding, weight.inlining_expanding] at htotal
    rw [setBranch_inlining hi]
    exact add_exchange htotal (hsource (sum_map_modify weight.branch hb))
  · have htotal := total_setLocation weight hl (.expanding raw (withPhase bs j phase))
    obtain ⟨k, n, ancestry, _⟩ := t
    cases ht
    rw [weight.location_expanding, weight.location_expanding] at htotal
    rw [setBranch_location hl rfl]
    exact add_exchange htotal (hsource (sum_map_modify weight.branch hb))

theorem total_eq_zero (hkeys : ∀ e ∈ r.cache.keys, weight.key e.1 e.2 = 0)
    (hlocations : ∀ e ∈ r.cache.locations, weight.location e.1 e.2 = 0)
    (hinlinings : ∀ x ∈ r.inlinings, weight.inlining x = 0) : total weight r = 0 := by
  rw [total, List.sum_eq_zero, List.sum_eq_zero, List.sum_eq_zero, add_zero, add_zero]
  all_goals
    intro x hx
    obtain ⟨e, he, rfl⟩ := List.mem_map.mp hx
  · exact hinlinings e he
  · exact hlocations e he
  · exact hkeys e he

/-- What is in a total is what a task counts for. -/
theorem exists_of_mem_total {lib : Library} {α : Type} {weight : Weight (Multiset α)}
    (h : Coherent lib r) {x : α} (hx : x ∈ total weight r) :
    (∃ k t, r.key? k = some t ∧ x ∈ weight.key k t) ∨
      (∃ l t, r.location? l = some t ∧ x ∈ weight.location l t) ∨
      ∃ i : Nat, ∃ y, r.inlinings[i]? = some y ∧ x ∈ weight.inlining y := by
  rw [total, Multiset.mem_add, Multiset.mem_add, mem_sum_map, mem_sum_map, mem_sum_map] at hx
  rcases hx with (⟨⟨k, t⟩, hk, hx⟩ | ⟨⟨l, t⟩, hl, hx⟩) | ⟨y, hy, hx⟩
  · exact Or.inl ⟨k, t, Table.get?_of_mem h.nodupKeys hk, hx⟩
  · exact Or.inr (Or.inl ⟨l, t, Table.get?_of_mem h.nodupLocations hl, hx⟩)
  · obtain ⟨i, hi⟩ := List.mem_iff_getElem?.mp hy
    exact Or.inr (Or.inr ⟨i, y, hi, hx⟩)

/-- What a task counts for is in the total. -/
theorem mem_total_of_key {α : Type} {weight : Weight (Multiset α)} {k : Key} {t : KeyTask} {x : α}
    (hk : r.key? k = some t) (hx : x ∈ weight.key k t) : x ∈ total weight r := by
  rw [total, Multiset.mem_add, Multiset.mem_add]
  exact Or.inl (Or.inl (mem_sum_map.mpr ⟨(k, t), Table.mem_of_get? hk, hx⟩))

theorem mem_total_of_location {α : Type} {weight : Weight (Multiset α)} {l : Location}
    {t : LocationTask} {x : α} (hl : r.location? l = some t) (hx : x ∈ weight.location l t) :
    x ∈ total weight r := by
  rw [total, Multiset.mem_add, Multiset.mem_add]
  exact Or.inl (Or.inr (mem_sum_map.mpr ⟨(l, t), Table.mem_of_get? hl, hx⟩))

theorem mem_total_of_inlining {α : Type} {weight : Weight (Multiset α)} {i : Nat} {y : Inlining}
    {x : α} (hi : r.inlinings[i]? = some y) (hx : x ∈ weight.inlining y) : x ∈ total weight r := by
  rw [total, Multiset.mem_add]
  exact Or.inr (mem_sum_map.mpr ⟨y, List.mem_of_getElem? hi, hx⟩)

/-- So is what a branch counts for. -/
theorem mem_total_of_branch {α : Type} {weight : Weight (Multiset α)} {owner : Owner} {j : Nat}
    {b : Branch} {x : α} (hj : (branches r owner)[j]? = some b) (hx : x ∈ weight.branch b) :
    x ∈ total weight r := by
  have hsum : ∀ {bs : List Branch}, bs[j]? = some b →
      x ∈ weight.source + (bs.map weight.branch).sum :=
    fun hb => Multiset.mem_add.mpr (Or.inr (mem_sum_map.mpr ⟨b, List.mem_of_getElem? hb, hx⟩))
  rcases owner_of_branch hj with ⟨i, n, bs, -, hi, hb⟩ | ⟨l, t, raw, bs, -, hl, ht, hb⟩
  · refine mem_total_of_inlining hi ?_
    rw [weight.inlining_expanding]
    exact hsum hb
  · obtain ⟨k, n, ancestry, _⟩ := t
    cases ht
    refine mem_total_of_location hl ?_
    rw [weight.location_expanding]
    exact hsum hb

end StyleBatch.Resolution
