import StyleBatch.Proofs.Stations

/-!
# Directives that come first in every tree

Where a location is imported by several directives, which of them is served depends on what is
fetched first.  It does not if all sources that import the location are reached through one source
that imports it itself, before anything that leads to it: the directive of that source is there
before all others, and in front of them.

* `Library.Gate`: a source through which all importers of a location are reached.
* `Library.Anchored`: a directive at a gate, before anything that leads to the location.
* `Grown.around`: a tree without the gate has nothing behind it.
* `Grown.pairwise_anchored`: no directive that leads to a location comes before its anchor.
-/

namespace StyleBatch.Library

section

variable (lib : Library) (loads : List Load)

/-- The sites that are reached from a load around another site. -/
inductive Around (n : Nat) (gate : Site) : Site → Prop
  | start : .load n ≠ gate → Around n gate (.load n)
  | step {s : Site} {j : Nat} {l : Location} : Around n gate s → lib.Occurs loads s j l →
      .location l ≠ gate → Around n gate (.location l)

/-- All sites that import the location are reached from the load through the gate. -/
def Gate (n : Nat) (gate : Site) (l : Location) : Prop :=
  ∀ s j, lib.Occurs loads s j l → ¬lib.Around loads n gate s

/-- The directive is the first one in every tree of the load that leads to the location. -/
structure Anchored (n : Nat) (l : Location) (s : Site) (j : Nat) : Prop where
  occurs : lib.Occurs loads s j l
  gate : lib.Gate loads n s l
  first : ∀ j' < j, ∀ l', lib.Occurs loads s j' l' → ¬Relation.ReflTransGen lib.Imports l' l

end

variable {lib : Library} {loads : List Load} {n : Nat} {gate s s₀ : Site} {j j₀ : Nat}
  {l : Location}

theorem Around.ne (h : lib.Around loads n gate s) : s ≠ gate := by
  cases h with
  | start hne => exact hne
  | step _ _ hne => exact hne

theorem around_load (n : Nat) (gate : Site) :
    .load n = gate ∨ lib.Around loads n gate (.load n) := by
  by_cases h : .load n = gate
  · exact Or.inl h
  · exact Or.inr (.start h)

/-- Nothing is reached around the load itself. -/
theorem gate_load (n : Nat) (l : Location) : lib.Gate loads n (.load n) l := by
  intro s j _ haround
  have hnever : ∀ {s : Site}, ¬lib.Around loads n (.load n) s := by
    intro s h
    induction h with
    | start hne => exact hne rfl
    | step _ _ _ ih => exact ih
  exact hnever haround

section Grown

variable {ls : List Lexeme} {is : List Import} {p : Pieces} {x : (Site × Nat) × Station}

/-- A tree that does not have the gate has only what is reached around it. -/
theorem Grown.around (h : Grown lib ls is p) (his : lib.Remain loads s j is)
    (hs : lib.Around loads n gate s) (hgate : ∀ l ∈ p.places, gate ≠ .location l)
    (hx : x ∈ p.stations s j) : lib.Around loads n gate x.1.1 := by
  have hchain := h.chain his hx
  generalize x.1.1 = s' at hchain
  induction hchain with
  | refl => exact hs
  | tail _ hlink ih =>
    obtain ⟨⟨j', l, hoccurs, rfl⟩, l', hl', hll'⟩ := hlink
    exact .step ih hoccurs fun heq => hgate l' hl' (heq ▸ hll')

/-- A tree that leads to the location has the gate. -/
theorem Grown.gate_cases (h : Grown lib ls is p) (his : lib.Remain loads (.load n) j is)
    (hgate : lib.Gate loads n gate l) (hx : x ∈ p.stations (.load n) j)
    (hl : lib.Occurs loads x.1.1 x.1.2 l) :
    gate = .load n ∨ ∃ l' ∈ p.places, gate = .location l' := by
  by_contra hnone
  rw [not_or] at hnone
  refine hgate _ _ hl (h.around his (.start (Ne.symm hnone.1)) (fun l' hl' heq => ?_) hx)
  exact hnone.2 ⟨l', hl', heq⟩

/-- What the directives below a location lead to, the location leads to. -/
theorem Grown.leads {l₀ : Location} (h : Grown lib ls is p)
    (his : lib.Remain loads (.location l₀) j is) (hx : x ∈ p.stations (.location l₀) j)
    (hl : lib.Occurs loads x.1.1 x.1.2 l) : Relation.ReflTransGen lib.Imports l₀ l := by
  have hsite : ∀ {s : Site}, Relation.ReflTransGen (fun a b => lib.Link loads a b ∧
      ∃ l ∈ p.places, b = .location l) (.location l₀) s →
      ∃ l', s = .location l' ∧ Relation.ReflTransGen lib.Imports l₀ l' := by
    intro s hchain
    induction hchain with
    | refl => exact ⟨l₀, rfl, .refl⟩
    | tail _ hlink ih =>
      obtain ⟨⟨j', l', hoccurs, rfl⟩, -⟩ := hlink
      obtain ⟨l₁, rfl, hl₁⟩ := ih
      exact ⟨l', rfl, hl₁.tail hoccurs.imports⟩
  obtain ⟨l', heq, hl'⟩ := hsite (h.chain his hx)
  rw [heq] at hl
  exact hl'.tail hl.imports

/-- A directive that leads to the location does not come before the anchor in the same source. -/
theorem Anchored.not_occurs (h : lib.Anchored loads n l s j)
    (hs₀ : s₀ = s ∨ lib.Around loads n s s₀) (hx : x ∈ p.stations s₀ (j₀ + 1)) (heq : x.1 = (s, j))
    (hown : ∀ l' ∈ p.places, s₀ ≠ .location l') : ¬lib.Occurs loads s₀ j₀ l := by
  intro hoccurs
  rcases hs₀ with rfl | haround
  · rcases Pieces.station_cases hx with ⟨-, hlt⟩ | ⟨l', hl', hsite⟩
    · rw [heq] at hlt
      refine h.first j₀ ?_ l hoccurs .refl
      simp only at hlt
      omega
    · rw [heq] at hsite
      exact hown l' hl' hsite
  · exact h.gate s₀ j₀ hoccurs haround

/-- In a tree no directive that leads to the location comes before the anchor. -/
theorem Grown.pairwise_anchored (h : Grown lib ls is p) (his : lib.Remain loads s₀ j₀ is)
    (hanchored : lib.Anchored loads n l s j) (hs₀ : s₀ = s ∨ lib.Around loads n s s₀)
    (hown : ∀ l' ∈ p.places, s₀ ≠ .location l') (hnodup : p.places.Nodup) :
    (p.stations s₀ j₀).Pairwise fun x y =>
      y.1 = (s, j) → ¬lib.Occurs loads x.1.1 x.1.2 l := by
  induction h generalizing s₀ j₀ with
  | nil => exact .nil
  | plain _ ih => exact ih his hs₀ hown hnodup
  | hole _ _ ih | cleared _ ih =>
    refine List.pairwise_cons.mpr ⟨fun y hy heq => ?_, ih his.tail hs₀ hown hnodup⟩
    exact hanchored.not_occurs hs₀ hy heq hown
  | @filled _ _ raw _ i l₀ _ _ is' inner p hfind hbase hfetch himports hinner _ ihinner ih =>
    rw [Pieces.places, List.nodup_cons, List.nodup_append, List.mem_append, not_or] at hnodup
    obtain ⟨⟨hl₀, hl₀'⟩, hnodup, hnodup', hdisjoint⟩ := hnodup
    have hremain : lib.Remain loads (.location l₀) 0 is' := remain_location hfetch himports hbase
    have hoccurs : lib.Occurs loads s₀ j₀ l₀ := (his.head.occursAs hfind).occurs
    have hownRest : ∀ l' ∈ p.places, s₀ ≠ .location l' :=
      fun l' hl' => hown l' (by simp [Pieces.places, hl'])
    -- The own site is not below the location.
    have hbelow : ∀ y ∈ inner.stations (.location l₀) 0, y.1.1 ≠ s₀ := by
      rintro y hy rfl
      rcases Pieces.station_cases hy with ⟨hsite, -⟩ | ⟨l', hl', hsite⟩
      · exact hown l₀ List.mem_cons_self hsite
      · exact hown l' (by simp [Pieces.places, hl']) hsite
    rw [Pieces.stations, List.pairwise_cons, List.pairwise_append]
    refine ⟨fun y hy heq hleads => ?_, ?_, ih his.tail hs₀ hownRest hnodup', ?_⟩
    · rcases List.mem_append.mp hy with hy | hy
      · rcases hs₀ with rfl | haround
        · exact hbelow y hy (congrArg Prod.fst heq)
        · exact hanchored.gate s₀ j₀ hleads haround
      · exact hanchored.not_occurs hs₀ hy heq hownRest hleads
    · rcases hs₀ with rfl | haround
      · refine List.pairwise_of_forall_mem_list fun x _ y hy heq => ?_
        exact absurd (congrArg Prod.fst heq) (hbelow y hy)
      · refine ihinner hremain ?_ ?_ hnodup
        · by_cases hgate : .location l₀ = s
          · exact Or.inl hgate
          · exact Or.inr (.step haround hoccurs hgate)
        · rintro l' hl' ⟨⟩
          exact hl₀ hl'
    · intro x hx y hy heq hleads
      rcases hs₀ with rfl | haround
      · -- The location would lead to what the anchor is the first to lead to.
        rcases Pieces.station_cases hy with ⟨-, hlt⟩ | ⟨l', hl', hsite⟩
        · rw [heq] at hlt
          refine hanchored.first j₀ ?_ l₀ hoccurs (hinner.leads hremain hx hleads)
          simp only at hlt
          omega
        · rw [heq] at hsite
          exact hownRest l' hl' hsite
      · -- The gate is in the rest, so it is not above what is below the location.
        obtain ⟨lₛ, hlₛ, rfl⟩ : ∃ lₛ ∈ p.places, s = .location lₛ := by
          rcases Pieces.station_cases hy with ⟨hsite, -⟩ | ⟨l', hl', hsite⟩
          · rw [heq] at hsite
            exact absurd hsite.symm haround.ne
          · rw [heq] at hsite
            exact ⟨l', hl', hsite⟩
        refine hanchored.gate _ _ hleads (hinner.around hremain (.step haround hoccurs ?_) ?_ hx)
        · rintro ⟨⟩
          exact hl₀' hlₛ
        · rintro l' hl' ⟨⟩
          exact hdisjoint _ hl' _ hlₛ rfl

end Grown

end StyleBatch.Library
