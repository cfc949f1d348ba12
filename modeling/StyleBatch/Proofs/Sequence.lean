import Mathlib.Algebra.BigOperators.Group.List.Basic
import Mathlib.Algebra.Order.Group.Multiset
import Mathlib.Data.List.Forall2
import Mathlib.Tactic.Abel
import StyleBatch.Fault

/-!
# Outcomes in a row

`List.mapM` in `Except` stops at the first fault; `mapM_eq_ok_iff` says when there is none.
`sum_map_modify` and `sum_map_zipIdx_modify` are for lists in which one member changes,
`eq_of_filterMap_nodup` is for lists whose values are all different.
-/

namespace StyleBatch

variable {α β ε : Type}

/-- What is in a list is at the same place in a longer one. -/
theorem getElem?_append_of_eq_some {xs : List α} {i : Nat} {x : α} (h : xs[i]? = some x)
    (ys : List α) : (xs ++ ys)[i]? = some x := by
  obtain ⟨hi, -⟩ := List.getElem?_eq_some_iff.mp h
  rw [List.getElem?_append_left hi, h]

theorem of_drop_eq_cons {x : α} {xs ys : List α} {i : Nat} (h : xs.drop i = x :: ys) :
    xs[i]? = some x ∧ xs.drop (i + 1) = ys := by
  constructor
  · rw [← Nat.add_zero i, ← List.getElem?_drop, h, List.getElem?_cons_zero]
  · rw [← List.tail_drop, h, List.tail_cons]

/-- What a part of a sum is exchanged for, the sum is exchanged for. -/
theorem add_exchange {M : Type} [AddCancelCommMonoid M] {a a' s s' x x' : M}
    (h : a' + s = a + s') (hpart : s' + x = s + x') : a' + x = a + x' := by
  refine add_right_cancel (b := s) ?_
  calc a' + x + s
      = a' + s + x := add_right_comm ..
    _ = a + (s' + x) := by rw [h, add_assoc]
    _ = a + x' + s := by rw [hpart]; abel

/-- A sum moves by the member that changed. -/
theorem sum_map_modify {M : Type} [AddCommMonoid M] {f : α → α} (g : α → M) {xs : List α}
    {i : Nat} {x : α} (h : xs[i]? = some x) :
    ((xs.modify i f).map g).sum + g x = (xs.map g).sum + g (f x) := by
  induction xs generalizing i with
  | nil => simp at h
  | cons y xs ih =>
    cases i with
    | zero =>
      simp only [List.getElem?_cons_zero, Option.some.injEq] at h
      subst h
      simp only [List.modify_zero_cons, List.map_cons, List.sum_cons]
      abel
    | succ i =>
      have hrest := ih (by simpa using h)
      simp only [List.modify_succ_cons, List.map_cons, List.sum_cons, add_assoc, hrest]

/-- So does a sum over the members with their places. -/
theorem sum_map_zipIdx_modify {M : Type} [AddCommMonoid M] {f : α → α} (g : α × Nat → M)
    {xs : List α} {i : Nat} {x : α} (h : xs[i]? = some x) (k : Nat) :
    (((xs.modify i f).zipIdx k).map g).sum + g (x, k + i) =
      ((xs.zipIdx k).map g).sum + g (f x, k + i) := by
  induction xs generalizing i k with
  | nil => simp at h
  | cons y xs ih =>
    cases i with
    | zero =>
      simp only [List.getElem?_cons_zero, Option.some.injEq] at h
      subst h
      simp only [List.modify_zero_cons, List.zipIdx_cons, List.map_cons, List.sum_cons, add_zero]
      abel
    | succ i =>
      have hrest := ih (by simpa using h) (k + 1)
      rw [add_assoc, add_comm 1 i] at hrest
      simp only [List.modify_succ_cons, List.zipIdx_cons, List.map_cons, List.sum_cons, add_assoc,
        hrest]

/-- In a list without the same value twice there is one place for each. -/
theorem eq_of_filterMap_nodup {f : α → Option β} {xs : List α} (h : (xs.filterMap f).Nodup)
    {x x' : α} {y : β} (hx : x ∈ xs) (hx' : x' ∈ xs) (hy : f x = some y) (hy' : f x' = some y) :
    x = x' := by
  induction xs with
  | nil => cases hx
  | cons z xs ih =>
    have hrest : (xs.filterMap f).Nodup := h.sublist ((List.sublist_cons_self z xs).filterMap f)
    -- The first one has the value, or none of the two is the first one.
    have hfirst : ∀ x ∈ xs, f x = some y → f z ≠ some y := by
      intro x hx hy hz
      rw [List.filterMap_cons_some hz, List.nodup_cons] at h
      exact h.1 (List.mem_filterMap.mpr ⟨x, hx, hy⟩)
    rcases List.mem_cons.mp hx with rfl | hmem <;> rcases List.mem_cons.mp hx' with rfl | hmem'
    · rfl
    · exact absurd hy (hfirst x' hmem' hy')
    · exact absurd hy' (hfirst x hmem hy)
    · exact ih hrest hmem hmem'

theorem mem_sum_map {f : α → Multiset β} {xs : List α} {y : β} :
    y ∈ (xs.map f).sum ↔ ∃ x ∈ xs, y ∈ f x := by
  induction xs with
  | nil => simp
  | cons x xs ih => simp [ih]

theorem exists_left_of_forall₂ {R : α → β → Prop} {xs : List α} {ys : List β}
    (h : List.Forall₂ R xs ys) {y : β} (hy : y ∈ ys) : ∃ x ∈ xs, R x y := by
  induction h with
  | nil => cases hy
  | cons hxy _ ih =>
    rcases List.mem_cons.mp hy with rfl | hy
    · exact ⟨_, List.mem_cons_self, hxy⟩
    · obtain ⟨x, hx, h⟩ := ih hy
      exact ⟨x, List.mem_cons_of_mem _ hx, h⟩

theorem exists_right_of_forall₂ {R : α → β → Prop} {xs : List α} {ys : List β}
    (h : List.Forall₂ R xs ys) {x : α} (hx : x ∈ xs) : ∃ y ∈ ys, R x y :=
  exists_left_of_forall₂ h.flip hx

theorem mapM_eq_ok_iff {f : α → Except ε β} {xs : List α} {ys : List β} :
    xs.mapM f = .ok ys ↔ List.Forall₂ (fun x y => f x = .ok y) xs ys := by
  induction xs generalizing ys with
  | nil =>
    rw [List.mapM_nil]
    constructor
    · intro h
      cases h
      exact .nil
    · rintro ⟨⟩
      rfl
  | cons x xs ih =>
    rw [List.mapM_cons]
    constructor
    · intro h
      cases hx : f x with
      | error e => simp [hx, bind, Except.bind] at h
      | ok y =>
        cases hxs : xs.mapM f with
        | error e => simp [hx, hxs, bind, Except.bind] at h
        | ok rest =>
          simp only [hx, hxs, bind, Except.bind, pure, Except.pure, Except.ok.injEq] at h
          subst h
          exact .cons hx (ih.mp hxs)
    · rintro (_ | ⟨hx, hrest⟩)
      rw [hx, ih.mpr hrest]
      rfl

/-- Where there is a fault, it is that of a member. -/
theorem exists_of_mapM_eq_error {f : α → Except ε β} {xs : List α} {e : ε}
    (h : xs.mapM f = .error e) : ∃ x ∈ xs, f x = .error e := by
  induction xs with
  | nil => cases h
  | cons x xs ih =>
    rw [List.mapM_cons] at h
    cases hx : f x with
    | error e' =>
      rw [hx] at h
      cases h
      exact ⟨x, List.mem_cons_self, hx⟩
    | ok y =>
      cases hxs : xs.mapM f with
      | error e' =>
        simp only [hx, hxs, bind, Except.bind, Except.error.injEq] at h
        obtain ⟨x', hmem, hx'⟩ := ih (h ▸ hxs)
        exact ⟨x', List.mem_cons_of_mem _ hmem, hx'⟩
      | ok ys => simp [hx, hxs, bind, Except.bind, pure, Except.pure] at h

end StyleBatch
