import Mathlib.Algebra.BigOperators.Group.List.Basic
import Mathlib.Tactic.Abel
import StyleBatch.Table

/-!
# Tables as finite maps

`get?_set` says what a table holds after `set`.  The rest follows the shape of a table:
`keys_set` (a new key comes last), `set_eq_self` (setting what is there changes nothing)
and `sum_set` (a total over the entries moves by the entry that changed).
-/

namespace StyleBatch.Table

variable {κ ν : Type} [DecidableEq κ]

theorem get?_set (table : Table κ ν) (key : κ) (value : ν) (key' : κ) :
    get? (set table key value) key' = if key = key' then some value else get? table key' := by
  induction table with
  | nil => simp [set, get?]
  | cons entry rest ih =>
    obtain ⟨k, v⟩ := entry
    by_cases hk : k = key
    · subst hk
      by_cases h : k = key' <;> simp [set, get?, h]
    · by_cases h : k = key'
      · subst h
        simp [set, get?, hk, Ne.symm hk]
      · simp [set, get?, hk, h, ih]

@[simp] theorem get?_set_self (table : Table κ ν) (key : κ) (value : ν) :
    get? (set table key value) key = some value := by
  rw [get?_set, if_pos rfl]

theorem get?_set_of_ne {table : Table κ ν} {key key' : κ} (h : key ≠ key') (value : ν) :
    get? (set table key value) key' = get? table key' := by
  rw [get?_set, if_neg h]

/-- Setting what is there changes nothing. -/
theorem set_eq_self {table : Table κ ν} {key : κ} {value : ν} (h : get? table key = some value) :
    set table key value = table := by
  induction table with
  | nil => simp [get?] at h
  | cons entry rest ih =>
    obtain ⟨k, v⟩ := entry
    by_cases hk : k = key
    · simp only [get?, hk, if_true, Option.some.injEq] at h
      simp [set, hk, h]
    · simp only [get?, hk, if_false] at h
      simp [set, hk, ih h]

theorem mem_keys_iff {table : Table κ ν} {key : κ} :
    key ∈ keys table ↔ (get? table key).isSome := by
  induction table with
  | nil => simp [keys, get?]
  | cons entry rest ih =>
    obtain ⟨k, v⟩ := entry
    by_cases hk : k = key
    · simp [keys, get?, hk]
    · simpa [keys, get?, hk, Ne.symm hk] using ih

theorem mem_of_get? {table : Table κ ν} {key : κ} {value : ν} (h : get? table key = some value) :
    (key, value) ∈ table := by
  induction table with
  | nil => cases h
  | cons entry rest ih =>
    obtain ⟨k, v⟩ := entry
    rw [get?] at h
    split at h
    · rename_i hk
      cases h
      rw [hk]
      exact List.mem_cons_self
    · exact List.mem_cons_of_mem _ (ih h)

theorem get?_of_mem {table : Table κ ν} (h : (keys table).Nodup) {key : κ} {value : ν}
    (hmem : (key, value) ∈ table) : get? table key = some value := by
  induction table with
  | nil => cases hmem
  | cons entry rest ih =>
    obtain ⟨k, v⟩ := entry
    rw [keys, List.map_cons, List.nodup_cons] at h
    rcases List.mem_cons.mp hmem with heq | hmem
    · cases heq
      rw [get?, if_pos rfl]
    · have hne : k ≠ key := by
        rintro rfl
        exact h.1 (List.mem_map.mpr ⟨_, hmem, rfl⟩)
      rw [get?, if_neg hne, ih h.2 hmem]

/-- An old key keeps its place, a new one comes last. -/
theorem keys_set (table : Table κ ν) (key : κ) (value : ν) :
    keys (set table key value) = if has table key then keys table else keys table ++ [key] := by
  induction table with
  | nil => simp [set, has, get?, keys]
  | cons entry rest ih =>
    obtain ⟨k, v⟩ := entry
    by_cases hk : k = key
    · simp [set, has, get?, keys, hk]
    · have hrest : has ((k, v) :: rest) key = has rest key := by simp [has, get?, hk]
      have hkeys : keys (set ((k, v) :: rest) key value) = k :: keys (set rest key value) := by
        simp [set, hk, keys]
      rw [hrest, hkeys, ih]
      split <;> rfl

theorem nodup_keys_set {table : Table κ ν} (h : (keys table).Nodup) (key : κ) (value : ν) :
    (keys (set table key value)).Nodup := by
  rw [keys_set]
  split
  · exact h
  · rename_i hnew
    have habsent : key ∉ keys table := fun hmem => hnew (mem_keys_iff.mp hmem)
    rw [List.nodup_append]
    refine ⟨h, by simp, ?_⟩
    rintro k hk _ hk' rfl
    exact habsent (by simpa using (List.mem_singleton.mp hk') ▸ hk)

/-- A total over the entries moves by the entry that changed. -/
theorem sum_set {M : Type} [AddCommMonoid M] (f : κ → ν → M) {table : Table κ ν} {key : κ}
    {old : ν} (h : get? table key = some old) (value : ν) :
    ((set table key value).map fun e => f e.1 e.2).sum + f key old =
      (table.map fun e => f e.1 e.2).sum + f key value := by
  induction table with
  | nil => simp [get?] at h
  | cons entry rest ih =>
    obtain ⟨k, v⟩ := entry
    by_cases hk : k = key
    · subst hk
      simp only [get?, if_true, Option.some.injEq] at h
      subst h
      simp only [set, if_true, List.map_cons, List.sum_cons]
      abel
    · simp only [get?, hk, if_false] at h
      simp only [set, hk, if_false, List.map_cons, List.sum_cons, add_assoc, ih h]

/-- A new entry adds itself to a total. -/
theorem sum_set_new {M : Type} [AddCommMonoid M] (f : κ → ν → M) {table : Table κ ν} {key : κ}
    (h : get? table key = none) (value : ν) :
    ((set table key value).map fun e => f e.1 e.2).sum =
      (table.map fun e => f e.1 e.2).sum + f key value := by
  induction table with
  | nil => simp [set]
  | cons entry rest ih =>
    obtain ⟨k, v⟩ := entry
    by_cases hk : k = key
    · simp [get?, hk] at h
    · simp only [get?, hk, if_false] at h
      simp only [set, hk, if_false, List.map_cons, List.sum_cons, add_assoc, ih h]

end StyleBatch.Table
