import StyleBatch.Proofs.Anchor
import StyleBatch.Proofs.Resolution.Drawn

/-!
# Where a location is put

The text of a location goes in the place of the first hole of its key.  A directive at a gate of the
location, under this key, is there by then, and it has not been cleared: so the location is put in
its place or before it, whatever was fetched first.

* `Arranged`: what has been put where.
* `Arranged.redrawn`: every redrawing keeps it.
* `Reached.exists_arranged`: so it holds of a tree in every state that comes about without faults.
-/

namespace StyleBatch

open Library Resolution

/-- A source that was staged has holes only. -/
theorem Library.stations_seed {ls : List Lexeme} {is : List Import} {s : Site} {j : Nat}
    {x : (Site × Nat) × Station} (hx : x ∈ (seed ls is).stations s j) :
    x.1.1 = s ∧ ∃ k, x.2 = .hole k := by
  fun_induction seed ls is generalizing j with
  | case1 => cases hx
  | case2 t ls is ih => exact ih hx
  | case3 _ _ _ ls ih => exact ih hx
  | case4 _ _ _ ls i is ih =>
    rcases List.mem_cons.mp hx with rfl | hx
    · exact ⟨rfl, _, rfl⟩
    · exact ih hx

/-- The location does not stand behind the directive. -/
abbrev NotBehind (o : Site × Nat) (l : Location) (x y : (Site × Nat) × Station) : Prop :=
  y.2 = .filled l → x.1 ≠ o

/-- Something else stands in the place of a hole, with what is put behind it. -/
theorem NotBehind.exchange {o a : Site × Nat} {l : Location} {k : Key} {st : Station}
    {before mid after : List ((Site × Nat) × Station)}
    (h : (before ++ (a, .hole k) :: after).Pairwise (NotBehind o l))
    (hbefore : st = .filled l → ∀ x ∈ before, x.1 ≠ o) (hmid : ∀ x ∈ mid, x.2 ≠ .filled l)
    (hafter : ∀ x ∈ mid, x.1 = o → ∀ y ∈ after, y.2 ≠ .filled l) :
    (before ++ ((a, st) :: mid ++ after)).Pairwise (NotBehind o l) := by
  rw [List.pairwise_append, List.pairwise_cons] at h
  obtain ⟨hfront, ⟨hhole, hback⟩, hacross⟩ := h
  rw [List.pairwise_append, List.cons_append, List.pairwise_cons, List.pairwise_append]
  refine ⟨hfront, ⟨fun y hy hfilled => ?_, ?_, hback, ?_⟩, fun x hx y hy hfilled => ?_⟩
  · rcases List.mem_append.mp hy with hy | hy
    · exact absurd hfilled (hmid y hy)
    · exact hhole y hy hfilled
  · exact List.pairwise_of_forall_mem_list fun x _ y hy hfilled => absurd hfilled (hmid y hy)
  · exact fun x hx y hy hfilled heq => hafter x hx heq y hy hfilled
  · rw [List.mem_cons, List.mem_append] at hy
    rcases hy with rfl | hy | hy
    · exact hbefore hfilled x hx
    · exact absurd hfilled (hmid y hy)
    · exact hacross x hx y (List.mem_cons_of_mem _ hy) hfilled

namespace Resolution

/-- What has been put where in the tree of a load. -/
structure Arranged (lib : Library) (loads : List Load) (n : Nat) (r : Resolution) (p : Pieces) :
    Prop where
  /-- What is cleared has a location that is settled. -/
  cleared : ∀ o l, (o, .cleared) ∈ p.stations (.load n) 0 → lib.Occurs loads o.1 o.2 l →
    ∃ outcome, locationOutcome? r l = some outcome
  /-- Under its key, a location does not stand behind a directive at a gate of it. -/
  first : ∀ o k l, lib.OccursAs loads o.1 o.2 k l → lib.Gate loads n o.1 l →
    (∀ t, r.location? l = some t → t.key = k) →
      (p.stations (.load n) 0).Pairwise (NotBehind o l)

variable {lib : Library} {loads : List Load} {r r' : Resolution} {n : Nat} {p p' : Pieces}

namespace Arranged

theorem nil (r : Resolution) : Arranged lib loads n r .nil :=
  ⟨fun _ _ h => (nomatch h), fun _ _ _ _ _ _ => .nil⟩

theorem later (h : Arranged lib loads n r p) (hlater : Later r r') : Arranged lib loads n r' p where
  cleared o l ho hoccurs := by
    obtain ⟨outcome, houtcome⟩ := h.cleared o l ho hoccurs
    exact ⟨outcome, hlater.locationOutcome? houtcome⟩
  first o k l hoccurs hgate hkey := by
    refine h.first o k l hoccurs hgate fun t ht => ?_
    obtain ⟨phase, ht', -⟩ := hlater.location l t ht
    exact hkey { t with phase } ht'

/-- The location of a hole's key is the one that its directive leads to. -/
theorem eq_of_hole {o : Site × Nat} {k : Key} {file : Text} {l l' : Location} {i : Import}
    (hi : lib.HasDirective loads o.1 o.2 i) (hkey : i.key = k) (hformed : (⟨k, file⟩ : Import).Formed)
    (hfind : lib.find k.base file = .ok l) (hl' : lib.Occurs loads o.1 o.2 l') : l' = l := by
  obtain ⟨k', hl'⟩ := hl'.exists_key
  obtain ⟨-, hfind'⟩ := hi.eq_of_occursAs hl'
  have heq : i = ⟨k, file⟩ := hi.formed.eq hformed hkey
  rw [heq, hfind] at hfind'
  exact (Except.ok.inj hfind').symm

/-- A source that was staged has nothing but holes. -/
theorem seed (r : Resolution) (ls : List Lexeme) (is : List Import) :
    Arranged lib loads n r (Library.seed ls is) := by
  refine ⟨fun o l ho _ => ?_, fun o k l _ _ _ => ?_⟩
  · obtain ⟨-, k, hk⟩ := stations_seed ho
    cases hk
  · refine List.pairwise_of_forall_mem_list fun x _ y hy hfilled => ?_
    obtain ⟨-, k, hk⟩ := stations_seed hy
    rw [hk] at hfilled
    cases hfilled

section Put

variable {ls : List Lexeme} {is : List Import} {k : Key} {file : Text} {l : Location}

/-- The first hole of a key is cleared when its location is settled. -/
theorem put_cleared (h : Arranged lib loads n r p) (hgrown : Grown lib ls is p)
    (his : lib.Remain loads (.load n) 0 is) (hformed : (⟨k, file⟩ : Import).Formed)
    (hfind : lib.find k.base file = .ok l) {outcome : Outcome}
    (hl : locationOutcome? r l = some outcome) (hput : p.put k .cleared = some p') :
    Arranged lib loads n r p' := by
  obtain ⟨before, a, after, hstations, -, hstations'⟩ := Pieces.stations_put
    (g := fun s j => [((s, j), .cleared)]) (fun _ _ _ => rfl) hput (.load n) 0
  refine ⟨fun o l' ho hoccurs => ?_, fun o k' l' hoccurs hgate hkey => ?_⟩
  · have hcases : (o, .cleared) ∈ p.stations (.load n) 0 ∨ o = a := by
      rw [hstations'] at ho
      rw [hstations]
      simp only [List.mem_append, List.mem_cons, Prod.mk.injEq] at ho ⊢
      tauto
    rcases hcases with ho | rfl
    · exact h.cleared o l' ho hoccurs
    · obtain ⟨i, hi, hkey, -⟩ := hgrown.station his
        (hstations ▸ List.mem_append_right _ List.mem_cons_self)
      rw [eq_of_hole hi (hkey k rfl) hformed hfind hoccurs]
      exact ⟨outcome, hl⟩
  · have hfirst := h.first o k' l' hoccurs hgate hkey
    rw [hstations] at hfirst
    rw [hstations']
    exact NotBehind.exchange hfirst nofun nofun nofun

/-- A directive that leads to a location under the key of its request is a hole, as long as the
location has not been put in and is not settled. -/
theorem eq_hole (h : Arranged lib loads n r p) (hgrown : Grown lib ls is p)
    (his : lib.Remain loads (.load n) 0 is) {o : Site × Nat} {st : Station}
    (hmem : (o, st) ∈ p.stations (.load n) 0) (hoccurs : lib.OccursAs loads o.1 o.2 k l)
    (hnew : l ∉ p.places) (hsettled : ∀ outcome, locationOutcome? r l ≠ some outcome) :
    st = .hole k := by
  obtain ⟨i, hi, hhole, hfilled⟩ := hgrown.station his hmem
  obtain ⟨hik, hfind⟩ := hi.eq_of_occursAs hoccurs
  cases st with
  | hole k' => rw [← hhole k' rfl, hik]
  | cleared =>
    obtain ⟨outcome, ho⟩ := h.cleared _ _ hmem hoccurs.occurs
    exact absurd ho (hsettled outcome)
  | filled l' =>
    have hfind' := hfilled l' rfl
    rw [hfind] at hfind'
    cases hfind'
    exact absurd (Pieces.mem_places_iff.mpr ⟨_, hmem⟩) hnew

/-- A location is put in the place of the first hole of the key under which it was requested. -/
theorem put_filled (h : Arranged lib loads n r p) (hgrown : Grown lib ls is p)
    (his : lib.Remain loads (.load n) 0 is) {t : LocationTask} (ht : r.location? l = some t)
    (hphase : t.phase.entered = false) (hnew : l ∉ p.places) {ls' : List Lexeme} {is' : List Import}
    (hput : p.put t.key (.filled l (Library.seed ls' is')) = some p') :
    Arranged lib loads n r p' := by
  obtain ⟨before, a, after, hstations, hholes, hstations'⟩ := Pieces.stations_put
    (g := fun s j => ((s, j), .filled l) :: (Library.seed ls' is').stations (.location l) 0)
    (fun _ _ _ => rfl) hput (.load n) 0
  have hsettled : ∀ outcome, locationOutcome? r l ≠ some outcome := by
    intro outcome ho
    obtain ⟨t', ht', hphase'⟩ := locationOutcome?_eq_some.mp ho
    rw [ht] at ht'
    cases ht'
    rw [hphase'] at hphase
    cases hphase
  have hfront : ∀ x ∈ before, x ∈ p.stations (.load n) 0 :=
    fun x hx => hstations ▸ List.mem_append_left _ hx
  have hback : ∀ y ∈ after, y ∈ p.stations (.load n) 0 :=
    fun y hy => hstations ▸ List.mem_append_right _ (List.mem_cons_of_mem _ hy)
  refine ⟨fun o l' ho hoccurs => ?_, fun o k l' hoccurs hgate hkey => ?_⟩
  · refine h.cleared o l' ?_ hoccurs
    rw [hstations'] at ho
    simp only [List.cons_append, List.mem_append, List.mem_cons, Prod.mk.injEq] at ho
    rcases ho with ho | ⟨-, ⟨⟩⟩ | ho | ho
    · exact hfront _ ho
    · obtain ⟨-, k, hk⟩ := stations_seed ho
      cases hk
    · exact hback _ ho
  · have hfirst := h.first o k l' hoccurs hgate hkey
    rw [hstations] at hfirst
    rw [hstations']
    refine NotBehind.exchange hfirst ?_ ?_ ?_
    · -- Before the first hole of the key the directive would be a hole of it.
      rintro hfilled ⟨o', st⟩ hx rfl
      cases hfilled
      refine hholes _ hx ?_
      rw [hkey t ht]
      exact h.eq_hole hgrown his (hfront _ hx) hoccurs hnew hsettled
    · intro x hx hfilled
      obtain ⟨-, k, hk⟩ := stations_seed hx
      rw [hk] at hfilled
      cases hfilled
    · -- What the gate leads to is not there without the gate.
      rintro x hx rfl y hy hfilled
      obtain ⟨hsite, -⟩ := stations_seed hx
      obtain ⟨i, hi, -, hleads⟩ := hgrown.station his (hback y hy)
      refine hgate _ _ (hi.occursAs (hleads _ hfilled)).occurs ?_
      rw [hsite]
      refine hgrown.around his (.start (by simp)) ?_ (hback y hy)
      rintro l'' hl'' ⟨⟩
      exact hnew hl''

end Put

/-- A tree is redrawn. -/
theorem redrawn (h : Arranged lib loads n r p) (hplain : lib.Plain loads) {load : Load}
    (hload : loads[n]? = some load) (htraced : Traced lib loads r n p)
    (hdrawn : Redrawn lib loads r n p p') : Arranged lib loads n r p' := by
  have hgrown : ∀ {k : Key} {f : Pieces → Pieces}, p.put k f = some p' →
      ∃ is, Grown lib (Directive.parts load.text) is p ∧ lib.Remain loads (.load n) 0 is := by
    intro k f hput
    have hstaged : Staged r n := by
      by_contra hnot
      rw [htraced.nil hnot] at hput
      cases hput
    obtain ⟨is, himports, hgrown⟩ := htraced.grown load hstaged hload
    exact ⟨is, hgrown, remain_load hload himports (hplain.load load (List.mem_of_getElem? hload))⟩
  cases hdrawn with
  | same => exact h
  | staged => exact .seed r ..
  | cleared hformed hfind hl hput =>
    obtain ⟨is, hgrown, his⟩ := hgrown hput
    exact h.put_cleared hgrown his hformed hfind hl hput
  | @filled t _ _ l _ _ ht hn hphase hformed hfind hreachable hfetch himports hput =>
    obtain ⟨is, hgrown, his⟩ := hgrown hput
    have hnew : l ∉ p.places := by
      rw [htraced.mem_places]
      rintro ⟨t', ht', -, hentered⟩
      rw [ht] at ht'
      cases ht'
      rw [hphase] at hentered
      cases hentered
    exact h.put_filled hgrown his ht hphase hnew hput

end Arranged

/-- A tree spells the text of a load that meets no fault, and its locations are put where they are to
be. -/
theorem Reached.exists_arranged (h : Reached lib loads r) (hclean : lib.Clean loads) {load : Load}
    (hload : loads[n]? = some load) (hf : Faultless lib loads r n) :
    ∃ p, Traced lib loads r n p ∧ Arranged lib loads n r p :=
  h.exists_traced (List.append_nil loads) hclean hf Arranged.nil (fun hlater hp => hp.later hlater)
    fun htraced hdrawn hp => hp.redrawn hclean.barless.plain hload htraced hdrawn

end Resolution

end StyleBatch
