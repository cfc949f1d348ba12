import StyleBatch.Proofs.Stations

/-!
# Expanding what is met first

`Library.walk` goes over the directives of a source in their order, and into each file before it goes
on.  Where it meets a location for the first time it expands it; every later directive that leads
there is left empty.  The state is the list of the locations that have been met.

`Grown.run_walk`: a tree in which every location stands where it is met first is such a walk.
-/

namespace StyleBatch.Library

open Resolution

section

variable (lib : Library) (loads : List Load)

/-- The text of a site, with every location expanded where it is met first. -/
def walk (s : Site) : StateT (List Location) Option Text := do
  let (address, source) ← lib.source? loads s
  let is ← (lib.imports address source).toOption
  let texts ← is.mapM fun i => do
    let l ← (lib.find (lib.base address) i.file).toOption
    if l ∈ (← get) then return []
    else
      modify (· ++ [l])
      by -- as in `Library.inline`
        apply walk
        exact .location l
  return fill source (Directive.scan source) texts
partial_fixpoint

/-- The text in the place of a directive. -/
def walkImport (base : Text) (i : Import) : StateT (List Location) Option Text := do
  let l ← (lib.find base i.file).toOption
  if l ∈ (← get) then return []
  else
    modify (· ++ [l])
    lib.walk loads (.location l)

end

variable {lib : Library} {loads : List Load} {s : Site} {met met' : List Location}

theorem walk_eq (s : Site) : lib.walk loads s = do
    let (address, source) ← lib.source? loads s
    let is ← (lib.imports address source).toOption
    let texts ← is.mapM (lib.walkImport loads (lib.base address))
    return fill source (Directive.scan source) texts := by
  rw [walk]
  rfl

/-- A site is walked over when its directives are. -/
theorem run_walk {address source : Text} {is : List Import} {texts : List Text}
    (hsource : lib.source? loads s = some (address, source))
    (himports : lib.imports address source = .ok is)
    (htexts : (is.mapM (lib.walkImport loads (lib.base address))).run met = some (texts, met')) :
    (lib.walk loads s).run met = some (fill source (Directive.scan source) texts, met') := by
  rw [walk_eq]
  simp [hsource, himports, Except.toOption, htexts]

theorem run_walk_location {l : Location} {raw : Text} {is : List Import} {texts : List Text}
    (hfetch : lib.fetch l = .ok raw) (himports : lib.imports l.text raw = .ok is)
    (htexts : (is.mapM (lib.walkImport loads (lib.base l.text))).run met = some (texts, met')) :
    (lib.walk loads (.location l)).run met =
      some (fill raw (Directive.scan raw) texts, met') :=
  run_walk (by rw [source?, hfetch]) himports htexts

/-- Where a location was met before, nothing is put. -/
theorem run_walkImport_of_mem {base : Text} {i : Import} {l : Location}
    (hfind : lib.find base i.file = .ok l) (hl : l ∈ met) :
    (lib.walkImport loads base i).run met = some ([], met) := by
  simp [walkImport, hfind, Except.toOption, hl]

/-- Where a location is met for the first time, it is expanded. -/
theorem run_walkImport_of_not_mem {base text : Text} {i : Import} {l : Location}
    (hfind : lib.find base i.file = .ok l) (hl : l ∉ met)
    (hwalk : (lib.walk loads (.location l)).run (met ++ [l]) = some (text, met')) :
    (lib.walkImport loads base i).run met = some (text, met') := by
  simp [walkImport, hfind, Except.toOption, hl, hwalk]

theorem run_mapM_cons {α β σ : Type} {f : α → StateT σ Option β} {x : α} {xs : List α} {y : β}
    {ys : List β} {a b c : σ} (hx : (f x).run a = some (y, b))
    (hxs : (xs.mapM f).run b = some (ys, c)) : ((x :: xs).mapM f).run a = some (y :: ys, c) := by
  simp [List.mapM_cons, hx, hxs]

/-- Nothing that leads to a location comes before its place. -/
abbrev First (loads : List Load) (lib : Library) (l : Location) (x y : (Site × Nat) × Station) :
    Prop :=
  y.2 = .filled l → ¬lib.Occurs loads x.1.1 x.1.2 l

/-- A tree without holes in which every location stands where it is met first is walked over. -/
theorem Grown.run_walk {ls : List Lexeme} {is : List Import} {p : Pieces} (h : Grown lib ls is p)
    {j : Nat} {base : Text} (his : lib.Remain loads s j is) (hbase : ∀ i ∈ is, i.key.base = base)
    (hdone : ∀ k, .hole k ∉ p.tokens) (hnodup : p.places.Nodup) (hmet : ∀ l ∈ p.places, l ∉ met)
    (hfirst : ∀ l, (p.stations s j).Pairwise (First loads lib l))
    (hcleared : ∀ o, (o, .cleared) ∈ p.stations s j →
      ∃ l, lib.Occurs loads o.1 o.2 l ∧ (l ∈ met ∨ l ∈ p.places)) :
    (is.mapM (lib.walkImport loads base)).run met =
      some (p.parts.map Prod.fst, met ++ p.places) := by
  induction h generalizing s j base met with
  | nil =>
    rw [Pieces.places, List.append_nil]
    rfl
  | plain _ ih =>
    exact ih his hbase (fun k hk => hdone k (List.mem_cons_of_mem _ hk)) hnodup hmet hfirst hcleared
  | hole => exact absurd List.mem_cons_self (hdone _)
  | @cleared _ _ _ i _ is p _ ih =>
    have hpairwise := fun l => List.pairwise_cons.mp (hfirst l)
    obtain ⟨l, hoccurs, hl⟩ := hcleared (s, j) List.mem_cons_self
    have hfind : lib.find base i.file = .ok l := by
      obtain ⟨k, hoccurs⟩ := hoccurs.exists_key
      rw [← hbase i List.mem_cons_self]
      exact (his.head.eq_of_occursAs hoccurs).2
    have hseen : l ∈ met := by
      refine hl.resolve_right fun hplace => ?_
      obtain ⟨o, ho⟩ := (Pieces.mem_places_iff (p := p)).mp hplace
      exact (hpairwise l).1 (o, .filled l) ho rfl hoccurs
    refine run_mapM_cons (run_walkImport_of_mem hfind hseen) ?_
    refine ih his.tail (fun i hi => hbase i (List.mem_cons_of_mem _ hi)) hdone hnodup hmet
      (fun l => (hpairwise l).2) fun o ho => ?_
    exact hcleared o (List.mem_cons_of_mem _ ho)
  | @filled _ _ raw _ i l _ is is' inner p hfind hlocation hfetch himports hinner _ ihinner ih =>
    rw [Pieces.places, List.nodup_cons, List.nodup_append, List.mem_append, not_or] at hnodup
    obtain ⟨⟨hl, hl'⟩, hnodup, hnodup', hdisjoint⟩ := hnodup
    have hpairwise := fun l' => List.pairwise_cons.mp (hfirst l')
    have hacross := fun l' => List.pairwise_append.mp (hpairwise l').2
    have hremain : lib.Remain loads (.location l) 0 is' :=
      remain_location hfetch himports hlocation
    rw [hbase i List.mem_cons_self] at hfind
    have hnew : l ∉ met := hmet l List.mem_cons_self
    have hwalk : (lib.walk loads (.location l)).run (met ++ [l]) =
        some (inner.render, met ++ [l] ++ inner.places) := by
      have hrow : (is'.mapM (lib.walkImport loads (lib.base l.text))).run (met ++ [l]) =
          some (inner.parts.map Prod.fst, met ++ [l] ++ inner.places) := by
        refine ihinner hremain (fun i hi => base_of_mem_imports hlocation himports hi)
          (fun k hk => hdone k (List.mem_append_left _ hk)) hnodup (fun l' hplace hseen => ?_)
          (fun l' => (hacross l').1) fun o ho => ?_
        · rcases List.mem_append.mp hseen with hseen | hseen
          · exact hmet l' (by simp [Pieces.places, hplace]) hseen
          · exact hl (List.mem_singleton.mp hseen ▸ hplace)
        · obtain ⟨l', hoccurs, hplace⟩ := hcleared o
            (List.mem_cons_of_mem _ (List.mem_append_left _ ho))
          refine ⟨l', hoccurs, ?_⟩
          rw [Pieces.places, List.mem_cons, List.mem_append] at hplace
          rcases hplace with hseen | rfl | hplace | hplace
          · exact Or.inl (List.mem_append_left _ hseen)
          · exact Or.inl (List.mem_append_right _ (List.mem_singleton_self _))
          · exact Or.inr hplace
          · -- What comes later does not stand where it is met first.
            obtain ⟨o', ho'⟩ := Pieces.mem_places_iff.mp hplace
            exact absurd hoccurs ((hacross l').2.2 _ ho (o', .filled l') ho' rfl)
      rw [run_walk_location hfetch himports hrow, hinner.render_eq.2]
    have hrest : (is.mapM (lib.walkImport loads base)).run (met ++ [l] ++ inner.places) =
        some (p.parts.map Prod.fst, met ++ [l] ++ inner.places ++ p.places) := by
      refine ih his.tail (fun i hi => hbase i (List.mem_cons_of_mem _ hi))
        (fun k hk => hdone k (List.mem_append_right _ hk)) hnodup' (fun l' hplace hseen => ?_)
        (fun l' => (hacross l').2.1) fun o ho => ?_
      · rw [List.mem_append, List.mem_append, List.mem_singleton] at hseen
        rcases hseen with (hseen | rfl) | hseen
        · exact hmet l' (by simp [Pieces.places, hplace]) hseen
        · exact hl' hplace
        · exact hdisjoint l' hseen l' hplace rfl
      · obtain ⟨l', hoccurs, hplace⟩ := hcleared o
          (List.mem_cons_of_mem _ (List.mem_append_right _ ho))
        refine ⟨l', hoccurs, ?_⟩
        simp only [Pieces.places, List.mem_cons, List.mem_append, List.not_mem_nil] at hplace ⊢
        tauto
    rw [run_mapM_cons (run_walkImport_of_not_mem hfind hnew hwalk) hrest]
    simp [Pieces.parts, Pieces.places]

end StyleBatch.Library
