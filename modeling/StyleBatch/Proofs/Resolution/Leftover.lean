import StyleBatch.Proofs.Resolution.Drawn
import StyleBatch.Proofs.Resolution.Stakes

/-!
# What a fault leaves in a text

A task that ends in a fault leaves its placeholder in the text of its load, and nothing takes it
away again: whoever clears a placeholder of that key owes one of its own.

* `Spelled`: a tree that spells the text of a load, with a hole for every placeholder that is owed
  and one more if a task of the load has ended in a fault.
* `Reached.exists_spelled`: there is such a tree in every state that comes about.
* `Reached.mark_mem_of_fault`: a load that was staged and ends in a fault has a mark in its text.
-/

namespace StyleBatch.Resolution

open Library

/-- The imports of a load cannot be read. -/
def Refused (lib : Library) (loads : List Load) (n : Nat) : Prop :=
  ∃ load fault, loads[n]? = some load ∧ lib.imports load.address load.text = .error fault

/-- A tree that spells the text of a load, with more holes than are owed if there was a fault. -/
structure Spelled (lib : Library) (loads : List Load) (r : Resolution) (n : Nat) (p : Pieces) :
    Prop where
  render : loadText r n = p.render
  neat : p.Neat
  owed : ∀ k, (stakes r).count (n, .owed k) ≤ p.tokens.count (.hole k)
  fault : (n, .fault) ∈ stakes r → Refused lib loads n ∨
    ∃ k, (stakes r).count (n, .owed k) < p.tokens.count (.hole k)

variable {lib : Library} {loads : List Load} {r r' : Resolution} {n m : Nat} {p : Pieces}
  {old new : Multiset (Nat × Stake)}

/-! ## Whose stakes they are -/

theorem Sound.load_of_splits (h : Sound lib loads r) {bs : List Branch} (hbs : Splits r n bs) :
    ∀ b ∈ bs, b.load = n := by
  intro b hb
  rcases hbs with ⟨i, hi⟩ | ⟨l, t, raw, hl, rfl, hphase⟩
  · obtain ⟨load, -, hsound⟩ := h.inlinings i n _ hi
    exact (hsound.2 b hb).1
  · have hsound := (h.locations l t hl).2
    rw [hphase] at hsound
    exact (hsound.2.2 b hb).1

theorem fst_of_mem_branchesStakes {bs : List Branch} (hbs : ∀ b ∈ bs, b.load = n)
    {x : Nat × Stake} (hx : x ∈ branchesStakes bs) : x.1 = n := by
  obtain ⟨b, hb, hx⟩ := mem_sum_map.mp hx
  exact (mem_held.mp hx).1.trans (hbs b hb)

/-- What is at stake for a load is at stake in one of its tasks. -/
theorem Sound.exists_of_mem_stakes (h : Sound lib loads r) (hcoherent : Coherent lib r)
    {stake : Stake} (hx : (n, stake) ∈ stakes r) :
    (∃ k t, r.key? k = some t ∧ t.load = n ∧ stake ∈ t.phase.stakes k) ∨
      (∃ l t, r.location? l = some t ∧ t.load = n ∧ (n, stake) ∈ t.stakes) ∨
      ∃ (i : Nat) (phase : InliningPhase), r.inlinings[i]? = some ⟨n, phase⟩ ∧
        (n, stake) ∈ Inlining.stakes ⟨n, phase⟩ := by
  rcases exists_of_mem_total hcoherent hx with ⟨k, t, hk, hx⟩ | ⟨l, t, hl, hx⟩ | ⟨i, y, hi, hx⟩
  · obtain ⟨rfl, hx⟩ := mem_held.mp hx
    exact Or.inl ⟨k, t, hk, rfl, hx⟩
  · refine Or.inr (Or.inl ⟨l, t, hl, ?_, hx⟩)
    change (n, stake) ∈ t.stakes at hx
    rw [LocationTask.stakes] at hx
    split at hx
    · rename_i raw bs hphase
      have hbs := h.load_of_splits (Or.inr ⟨l, t, raw, hl, rfl, hphase⟩)
      exact (fst_of_mem_branchesStakes hbs hx).symm
    · exact (mem_held.mp hx).1.symm
    · exact (mem_held.mp hx).1.symm
  · obtain ⟨m, phase⟩ := y
    have hm : n = m := by
      cases phase with
      | queued => exact absurd hx (Multiset.notMem_zero _)
      | expanding bs => exact fst_of_mem_branchesStakes (h.load_of_splits (Or.inl ⟨i, hi⟩)) hx
      | settled o => exact (mem_held.mp hx).1
    subst hm
    exact Or.inr (Or.inr ⟨i, phase, hi, hx⟩)

/-- Something is at stake only for loads that are staged. -/
theorem Sound.staged_of_mem_stakes (h : Sound lib loads r) (hcoherent : Coherent lib r)
    {stake : Stake} (hx : (n, stake) ∈ stakes r) : Staged r n := by
  rcases h.exists_of_mem_stakes hcoherent hx with ⟨k, t, hk, rfl, -⟩ | ⟨l, t, hl, rfl, -⟩ |
    ⟨i, phase, hi, hmem⟩
  · exact (h.keys k t hk).1.1
  · exact h.staged_of_location hl
  · refine ⟨i, phase, hi, ?_⟩
    rintro rfl
    exact Multiset.notMem_zero _ hmem

/-- For a load that is settled only faults are left. -/
theorem Sound.eq_fault_of_settled (h : Sound lib loads r) (hcoherent : Coherent lib r)
    (hsettled : (Way.load n).Settled r) {stake : Stake} (hx : (n, stake) ∈ stakes r) :
    stake = .fault := by
  rcases h.exists_of_mem_stakes hcoherent hx with ⟨k, t, hk, rfl, hmem⟩ |
    ⟨l, t, hl, rfl, hmem⟩ | ⟨i, phase, hi, hmem⟩
  · obtain ⟨o, hphase⟩ := h.settled_of_key hk hsettled
    rw [hphase] at hmem
    exact (mem_faults.mp hmem).1
  · obtain ⟨o, hphase⟩ := h.settled_of_location hl hsettled
    rw [LocationTask.stakes, hphase] at hmem
    exact (mem_faults.mp (mem_held.mp hmem).2).1
  · obtain ⟨o, rfl⟩ := h.settled_of_inlining hi hsettled
    exact (mem_faults.mp (mem_held.mp hmem).2).1

/-- A trade is about the stakes of one load. -/
theorem Trade.fst_eq (h : Trade lib r r' m old new) (hsound : Sound lib loads r)
    {x : Nat × Stake} (hx : x ∈ old ∨ x ∈ new) : x.1 = m := by
  have himports : ∀ {is : List Import},
      x ∈ (↑(is.map fun i => (m, Stake.owed i.key)) : Multiset (Nat × Stake)) → x.1 = m := by
    intro is hx
    obtain ⟨i, -, rfl⟩ := List.mem_map.mp (Multiset.mem_coe.mp hx)
    rfl
  cases h with
  | idle => simp at hx
  | settled =>
    rcases hx with hx | hx
    · rw [Multiset.mem_singleton.mp hx]
    · exact (mem_held.mp hx).1
  | gathered _ hbs =>
    rcases hx with hx | hx
    · exact fst_of_mem_branchesStakes (hsound.load_of_splits hbs) hx
    · exact (mem_held.mp hx).1
  | refused | cleared =>
    simp only [Multiset.notMem_zero, Multiset.mem_singleton, false_or, or_false] at hx
    rw [hx]
  | key | location =>
    simp only [Multiset.insert_eq_cons, Multiset.mem_cons, Multiset.mem_singleton] at hx
    rcases hx with rfl | rfl | rfl <;> rfl
  | staged =>
    rcases hx with hx | hx
    · exact absurd hx (Multiset.notMem_zero _)
    · exact himports hx
  | entered =>
    rcases hx with hx | hx
    · rw [Multiset.mem_singleton.mp hx]
    · exact himports hx

/-- A trade leaves the texts of other loads. -/
theorem Trade.loadText_of_ne (h : Trade lib r r' m old new) (hmn : m ≠ n) :
    loadText r' n = loadText r n := by
  cases h with
  | idle hloads | settled hloads | gathered hloads | refused _ _ _ hloads | key hloads
  | location hloads => exact loadText_congr hloads
  | staged _ _ _ _ hloads => rw [loadText_congr hloads, loadText_setLoadText_of_ne hmn]
  | cleared hloads => exact (loadText_congr hloads).trans (loadText_setLoadText_of_ne hmn _)
  | entered _ _ _ _ hloads => exact (loadText_congr hloads).trans (loadText_setLoadText_of_ne hmn _)

/-! ## Counting -/

theorem count_stakes (hstakes : stakes r' + old = stakes r + new) (x : Nat × Stake) :
    (stakes r').count x + old.count x = (stakes r).count x + new.count x := by
  rw [← Multiset.count_add, hstakes, Multiset.count_add]

theorem count_owed_faults (n : Nat) (o : Outcome) (k : Key) :
    (held n (faults o)).count (n, .owed k) = 0 := by
  rw [Multiset.count_eq_zero]
  intro hmem
  obtain ⟨heq, -⟩ := mem_faults.mp (mem_held.mp hmem).2
  cases heq

theorem count_owed_singleton (n : Nat) (k k' : Key) :
    Multiset.count (n, Stake.owed k') {(n, Stake.owed k)} = if k = k' then 1 else 0 := by
  rw [Multiset.count_singleton]
  simp [eq_comm]

theorem count_owed_imports (is : List Import) (n : Nat) (k : Key) :
    Multiset.count (n, Stake.owed k) ↑(is.map fun i => (n, Stake.owed i.key)) =
      (is.map Import.key).count k := by
  have hinjective : Function.Injective fun k => (n, Stake.owed k) := by
    intro k k' heq
    cases heq
    rfl
  have hmap : ↑(is.map fun i => (n, Stake.owed i.key)) =
      Multiset.map (fun k => (n, Stake.owed k)) ↑(is.map Import.key) := by
    rw [Multiset.map_coe, List.map_map]
    rfl
  rw [hmap, Multiset.count_map_eq_count' _ _ hinjective, Multiset.coe_count]

/-- A stake that a fault takes the place of is a placeholder, or there was a fault before. -/
theorem Doomed.cases {stake : Stake} (h : Doomed r stake) (hmem : (n, stake) ∈ stakes r)
    (hstarted : Started r (n, stake)) : (n, .fault) ∈ stakes r ∨ ∃ k, stake = .owed k := by
  cases stake with
  | owed k => exact Or.inr ⟨k, rfl⟩
  | fault => exact Or.inl hmem
  | key k =>
    obtain ⟨fault, ho⟩ := h
    obtain ⟨t, hk, rfl⟩ := hstarted
    obtain ⟨t', hk', hphase⟩ := keyOutcome?_eq_some.mp ho
    rw [hk] at hk'
    cases hk'
    refine Or.inl (mem_total_of_key hk (mem_held.mpr ⟨rfl, ?_⟩))
    rw [hphase]
    exact Multiset.mem_singleton_self _
  | location l =>
    obtain ⟨fault, ho⟩ := h
    obtain ⟨t, hl, rfl⟩ := hstarted
    obtain ⟨t', hl', hphase⟩ := locationOutcome?_eq_some.mp ho
    rw [hl] at hl'
    cases hl'
    refine Or.inl (mem_total_of_location hl ?_)
    change (t.load, Stake.fault) ∈ t.stakes
    rw [LocationTask.stakes, hphase]
    exact mem_held.mpr ⟨rfl, Multiset.mem_singleton_self _⟩

/-! ## Every trade leaves a tree -/

namespace Spelled

/-- The text stays, and no placeholder more is owed. -/
theorem of_le (h : Spelled lib loads r n p) (htext : loadText r' n = loadText r n)
    (howed : ∀ k, (stakes r').count (n, .owed k) ≤ (stakes r).count (n, .owed k))
    (hfault : (n, .fault) ∈ stakes r' → (n, .fault) ∈ stakes r ∨ Refused lib loads n ∨
      ∃ k, (stakes r').count (n, .owed k) < (stakes r).count (n, .owed k)) :
    Spelled lib loads r' n p where
  render := htext.trans h.render
  neat := h.neat
  owed k := (howed k).trans (h.owed k)
  fault hmem := by
    rcases hfault hmem with hmem | hrefused | ⟨k, hlt⟩
    · refine (h.fault hmem).imp_right ?_
      rintro ⟨k, hlt⟩
      exact ⟨k, (howed k).trans_lt hlt⟩
    · exact Or.inl hrefused
    · exact Or.inr ⟨k, hlt.trans_le (h.owed k)⟩

/-- Something is put in the place of a placeholder that was owed: `extra` are its tokens. -/
theorem put (h : Spelled lib loads r n p) {k : Key} (hk : (n, .owed k) ∈ stakes r)
    (f : Pieces → Pieces) (extra : List Token)
    (htokens : ∀ rest, (f rest).tokens = extra ++ rest.tokens)
    (hneat : ∀ token ∈ extra, token.Neat)
    (htext : loadText r' n = k.substitute (extra.flatMap Token.spell) (loadText r n))
    (howed : ∀ k', (stakes r').count (n, .owed k') + (if k = k' then 1 else 0) =
      (stakes r).count (n, .owed k') + extra.count (.hole k'))
    (hfault : (n, .fault) ∈ stakes r' → (n, .fault) ∈ stakes r) :
    ∃ p', Spelled lib loads r' n p' := by
  have hhole : .hole k ∈ p.tokens := by
    have hle := h.owed k
    have hpos := Multiset.count_pos.mpr hk
    exact List.count_pos_iff.mp (by omega)
  cases hput : p.put k f with
  | none => exact absurd hhole (Pieces.hole_not_mem_of_put hput)
  | some p' =>
    refine ⟨p', ?_, h.neat.put htokens hput hneat, fun k' => ?_, fun hmem => ?_⟩
    · rw [htext, h.render, Pieces.substitute_render htokens hput h.neat]
    · have hcount := Pieces.count_put htokens hput k'
      have hle := h.owed k'
      have hdue := howed k'
      omega
    · refine (h.fault (hfault hmem)).imp_right ?_
      rintro ⟨k', hlt⟩
      have hcount := Pieces.count_put htokens hput k'
      have hdue := howed k'
      exact ⟨k', by omega⟩

/-- A trade that is about another load leaves the tree. -/
theorem foreign (h : Spelled lib loads r n p) (hsound : Sound lib loads r)
    (htrade : Trade lib r r' m old new) (hstakes : stakes r' + old = stakes r + new)
    (hmn : m ≠ n) : Spelled lib loads r' n p := by
  have hnone : ∀ stake, (n, stake) ∉ old ∧ (n, stake) ∉ new := fun stake =>
    ⟨fun hx => hmn (htrade.fst_eq hsound (Or.inl hx)).symm,
      fun hx => hmn (htrade.fst_eq hsound (Or.inr hx)).symm⟩
  refine h.of_le (htrade.loadText_of_ne hmn) (fun k => ?_) fun hmem => Or.inl ?_
  · have hk := count_stakes hstakes (n, .owed k)
    rw [Multiset.count_eq_zero.mpr (hnone _).1, Multiset.count_eq_zero.mpr (hnone _).2] at hk
    exact hk.le
  · exact (mem_stakes hstakes hmem).resolve_right (hnone _).2

/-- Every trade leaves a tree. -/
theorem trade (h : Spelled lib loads r n p) (hcoherent : Coherent lib r)
    (hsound : Sound lib loads r) (hstarted : ∀ x ∈ stakes r, Started r x)
    (hclean : lib.Clean loads) (htrade : Trade lib r r' m old new)
    (hstakes : stakes r' + old = stakes r + new) (hold : ∀ x ∈ old, x ∈ stakes r) :
    ∃ p', Spelled lib loads r' n p' := by
  by_cases hmn : m = n
  swap
  · exact ⟨p, h.foreign hsound htrade hstakes hmn⟩
  subst hmn
  have hcount : ∀ stake, (stakes r').count (m, stake) + old.count (m, stake) =
      (stakes r).count (m, stake) + new.count (m, stake) := fun stake => count_stakes hstakes _
  have hfault : (m, .fault) ∈ stakes r' → (m, .fault) ∈ stakes r ∨ (m, .fault) ∈ new :=
    mem_stakes hstakes
  have hlt : ∀ {stake : Stake}, (m, stake) ∈ stakes r → m < r.loads.length := fun hx =>
    hcoherent.lt_of_staged (hsound.staged_of_mem_stakes hcoherent hx)
  cases htrade with
  | idle hloads =>
    refine ⟨p, h.of_le (loadText_congr hloads) (fun k => (hcount (.owed k)).le) fun hmem => ?_⟩
    exact Or.inl ((hfault hmem).resolve_right (Multiset.notMem_zero _))
  | @settled stake o hloads hdoomed =>
    refine ⟨p, h.of_le (loadText_congr hloads) (fun k => ?_) fun hmem => ?_⟩
    · have hk := hcount (.owed k)
      rw [count_owed_faults] at hk
      omega
    · rcases hfault hmem with hmem | hmem
      · exact Or.inl hmem
      have hstake : (m, stake) ∈ stakes r := hold _ (Multiset.mem_singleton_self _)
      have hlost := hdoomed (mem_faults.mp (mem_held.mp hmem).2).2
      rcases hlost.cases hstake (hstarted _ hstake) with hmem | ⟨k, rfl⟩
      · exact Or.inl hmem
      · have hk := hcount (.owed k)
        rw [count_owed_faults, Multiset.count_singleton_self] at hk
        exact Or.inr (Or.inr ⟨k, by omega⟩)
  | @gathered bs o hloads hbs hall hfailed =>
    refine ⟨p, h.of_le (loadText_congr hloads) (fun k => ?_) fun hmem => Or.inl ?_⟩
    · have hk := hcount (.owed k)
      rw [count_owed_faults] at hk
      omega
    · rcases hfault hmem with hmem | hmem
      · exact hmem
      obtain ⟨b, hb, fault, hphase⟩ := hfailed (mem_faults.mp (mem_held.mp hmem).2).2
      refine hold _ (mem_sum_map.mpr ⟨b, hb, mem_held.mpr ⟨?_, ?_⟩⟩)
      · exact (hsound.load_of_splits hbs b hb).symm
      · rw [hphase]
        exact Multiset.mem_singleton_self _
  | @refused i load fault hi hload himports hloads =>
    refine ⟨p, h.of_le (loadText_congr hloads) (fun k => ?_) fun hmem => ?_⟩
    · have hk := hcount (.owed k)
      rw [Multiset.count_zero, Multiset.count_singleton, if_neg (by simp)] at hk
      exact hk.le
    · exact Or.inr (Or.inl ⟨load, fault, hsound.load_of_queued hi hload, himports⟩)
  | key hloads | location hloads =>
    refine ⟨p, h.of_le (loadText_congr hloads) (fun k => ?_) fun hmem => Or.inl ?_⟩
    · have hk := hcount (.owed k)
      simp only [Multiset.insert_eq_cons, Multiset.count_cons, Multiset.count_singleton] at hk
      simp at hk
      omega
    · exact (hfault hmem).resolve_right (by simp)
  | @staged i load is hi hload hscan himports hloads =>
    have hn := hsound.not_staged_of_queued hi
    have hload' := hsound.load_of_queued hi hload
    have hnone : ∀ stake, (m, stake) ∉ stakes r := fun _ hx =>
      hn (hsound.staged_of_mem_stakes hcoherent hx)
    have hlt := hcoherent.loads _ (List.mem_of_getElem? hi)
    refine ⟨seed (Directive.parts load.text) is, ?_,
      hclean.neat_load (List.mem_of_getElem? hload') himports, fun k => ?_, fun hmem => ?_⟩
    · rw [loadText_congr hloads, loadText_setLoadText hlt, marked_eq himports]
    · have hk := hcount (.owed k)
      rw [Multiset.count_zero, Multiset.count_eq_zero.mpr (hnone _), count_owed_imports] at hk
      rw [count_seed (length_imports_parts himports)]
      omega
    · rcases hfault hmem with hmem | hmem
      · exact absurd hmem (hnone _)
      · simp at hmem
  | @cleared k hloads =>
    have hk : (m, .owed k) ∈ stakes r := hold _ (Multiset.mem_singleton_self _)
    refine h.put hk .cleared [] (fun _ => rfl) (fun _ hmem => nomatch hmem) ?_ (fun k' => ?_) ?_
    · exact (loadText_congr hloads).trans (loadText_setLoadText (hlt hk) _)
    · rw [← count_owed_singleton m, hcount]
      rfl
    · exact fun hmem => (hfault hmem).resolve_right (Multiset.notMem_zero _)
  | @entered l t raw is hl hload hfetch himports hloads =>
    have hk : (m, .owed t.key) ∈ stakes r := hold _ (Multiset.mem_singleton_self _)
    have hlength := length_imports_parts himports
    obtain ⟨w, hw, -⟩ := hsound.exists_way_location hl
    have hreachable := (hw.open hsound).reachable hclean.barless.plain
    refine h.put hk (.filled l (seed (Directive.parts raw) is)) _ (fun _ => rfl)
      (hclean.neat_location hreachable hfetch himports) ?_ (fun k' => ?_) fun hmem => ?_
    · rw [← Pieces.render, ← marked_eq himports]
      exact (loadText_congr hloads).trans (loadText_setLoadText (hlt hk) _)
    · rw [← count_owed_singleton m, hcount, count_owed_imports, count_seed hlength]
    · exact (hfault hmem).resolve_right (by simp)

end Spelled

/-! ## In every state -/

theorem stakes_begin (r : Resolution) (n : Nat) : stakes (r.begin n) = stakes r :=
  (total_begin stakeWeight r n).trans (add_zero _)

/-- A load that is submitted is spelled by its text. -/
theorem Spelled.submitted (h : Sound lib loads r) (hcoherent : Coherent lib r) {load : Load}
    (hclean : Text.Clean load.text) :
    Spelled lib (loads ++ [load]) (r.addLoad load) loads.length (.text load.text .nil) := by
  have hnone : ∀ stake, (loads.length, stake) ∉ stakes (r.addLoad load) := by
    intro stake hx
    have hlt := hcoherent.lt_of_staged (h.staged_of_mem_stakes hcoherent hx)
    exact (hlt.trans_eq h.length).false
  refine ⟨?_, fun token htoken => ?_, fun k => ?_, fun hmem => absurd hmem (hnone _)⟩
  · rw [← h.length]
    simp [loadText, Resolution.addLoad, Pieces.render, Pieces.tokens, Token.spell]
  · rw [List.mem_singleton.mp htoken]
    exact hclean
  · rw [Multiset.count_eq_zero.mpr (hnone _)]
    exact Nat.zero_le _

/-- A load more leaves the trees of the others. -/
theorem Spelled.addLoad (h : Spelled lib loads r n p) (hn : n < r.loads.length) (load : Load) :
    Spelled lib (loads ++ [load]) (r.addLoad load) n p where
  render := (loadText_addLoad hn load).trans h.render
  neat := h.neat
  owed := h.owed
  fault hmem := by
    refine (h.fault hmem).imp_left ?_
    rintro ⟨load', fault, hload', himports⟩
    exact ⟨load', fault, getElem?_append_of_eq_some hload' [load], himports⟩

/-- In every state that comes about, a tree spells the text of each load. -/
theorem Reached.exists_spelled (h : Reached lib loads r) (hclean : lib.Clean loads)
    (hn : n < loads.length) : ∃ p, Spelled lib loads r n p := by
  induction h with
  | start => exact absurd hn (Nat.not_lt_zero n)
  | @submit loads r load hr ih =>
    obtain ⟨hcoherent, hlength⟩ := hr.coherent
    rw [List.length_append, List.length_singleton] at hn
    by_cases hlast : n = loads.length
    · subst hlast
      exact ⟨_, .submitted hr.sound hcoherent (hclean.load load (by simp)).2⟩
    · obtain ⟨p, hp⟩ := ih hclean.of_append (by omega)
      exact ⟨p, hp.addLoad (by omega) load⟩
  | begin m _ _ _ ih =>
    obtain ⟨p, hp⟩ := ih hclean hn
    refine ⟨p, hp.render, hp.neat, ?_, ?_⟩
    · rw [stakes_begin]
      exact hp.owed
    · rw [stakes_begin]
      exact hp.fault
  | poll hr hcan ih =>
    obtain ⟨p, hp⟩ := ih hclean hn
    have hcoherent := hr.coherent.1
    obtain ⟨m, old, new, hstakes, hold, htrade⟩ := (transition_of_canStep hcoherent hcan).trade
    exact hp.trade hcoherent hr.sound hr.started hclean htrade hstakes hold
  | elsewhere world _ _ ih =>
    obtain ⟨p, hp⟩ := ih hclean hn
    exact ⟨p, hp.render, hp.neat, hp.owed, hp.fault⟩

/-- A load that was staged and ended in a fault has a mark left in its text. -/
theorem Reached.mark_mem_of_fault (h : Reached lib loads r) (hclean : lib.Clean loads) {i : Nat}
    {load : Load} {fault : Fault} {is : List Import} (hload : loads[n]? = some load)
    (himports : lib.imports load.address load.text = .ok is)
    (hi : r.inlinings[i]? = some ⟨n, .settled (.error fault)⟩) : '\x00' ∈ loadText r n := by
  obtain ⟨p, hp⟩ := h.exists_spelled hclean (List.getElem?_eq_some_iff.mp hload).1
  have hmem : (n, .fault) ∈ stakes r :=
    mem_total_of_inlining hi (mem_held.mpr ⟨rfl, Multiset.mem_singleton_self _⟩)
  rcases hp.fault hmem with ⟨load', fault', hload', himports'⟩ | ⟨k, hlt⟩
  · rw [hload] at hload'
    cases hload'
    rw [himports] at himports'
    cases himports'
  · have hhole : .hole k ∈ p.tokens := List.count_pos_iff.mp (by omega)
    rw [hp.render, Pieces.render, List.mem_flatMap]
    exact ⟨_, hhole, List.mem_cons_self⟩

end StyleBatch.Resolution
