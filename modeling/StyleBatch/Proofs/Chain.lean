import StyleBatch.Proofs.Acyclic

/-!
# Chains of imports

A chain is what an import that leads back is reported with: the address of a load, then a key and
the location it leads to by turns, each key that of an import of the source before it.  It is
closed by a key or a location that the last source leads to and that is on the chain already.

* `Way.Open.chain`: what is remembered of an open way is such a chain.
* `Library.Chain.append`, `Library.Circular.append`: loads that come later change nothing.
-/

namespace StyleBatch

namespace Library

section

variable (lib : Library) (loads : List Load)

/-- The entries of a chain, with the address and the text of the source at its end. -/
inductive Chain : List Text → Text → Text → Prop
  | load {load : Load} : load ∈ loads → Chain [load.address] load.address load.text
  | next {entries : List Text} {address source raw : Text} {is : List Import} {i : Import}
      {l : Location} : Chain entries address source → lib.imports address source = .ok is →
      i ∈ is → lib.find (lib.base address) i.file = .ok l → lib.fetch l = .ok raw →
      Chain (entries ++ [i.key.text, l.text]) l.text raw

/-- A chain with an entry behind it that is on the chain: the key of an import of its last source,
or the location that this key leads to. -/
inductive Circular : List Text → Prop
  | closed {entries : List Text} {address source closing : Text} {is : List Import} {i : Import} :
      Chain lib loads entries address source → lib.imports address source = .ok is → i ∈ is →
      (closing = i.key.text ∨
        ∃ l, lib.find (lib.base address) i.file = .ok l ∧ closing = l.text) →
      closing ∈ entries → Circular (entries ++ [closing])

/-- An address from which a cycle of imports is reached. -/
def Cyclic (a : Text) : Prop :=
  ∃ b, Relation.ReflTransGen (lib.Edge loads) a b ∧ Relation.TransGen (lib.Edge loads) b b

end

variable {lib : Library} {loads : List Load}

theorem Cyclic.of_edge {a b : Text} (h : lib.Cyclic loads b) (hab : lib.Edge loads a b) :
    lib.Cyclic loads a := by
  obtain ⟨c, hbc, hc⟩ := h
  exact ⟨c, .head hab hbc, hc⟩

theorem cyclic_of_cycle {a : Text} (h : Relation.TransGen (lib.Edge loads) a a) :
    lib.Cyclic loads a :=
  ⟨a, .refl, h⟩

/-! ## Loads that come later -/

section Append

variable (more : List Load)

theorem Barless.of_append {more : List Load} (h : lib.Barless (loads ++ more)) :
    lib.Barless loads where
  load load hload := h.load load (List.mem_append_left more hload)
  location l hl := h.location l (hl.append more)

theorem Edge.append {a b : Text} (h : lib.Edge loads a b) : lib.Edge (loads ++ more) a b :=
  h.imp_left fun ⟨load, hload, ha, hleads⟩ =>
    ⟨load, List.mem_append_left more hload, ha, hleads⟩

theorem cycle_append {a : Text} (h : Relation.TransGen (lib.Edge loads) a a) :
    Relation.TransGen (lib.Edge (loads ++ more)) a a :=
  h.lift id fun _ _ hab => hab.append more

theorem Cyclic.append {a : Text} (h : lib.Cyclic loads a) : lib.Cyclic (loads ++ more) a := by
  obtain ⟨b, hab, hb⟩ := h
  exact ⟨b, hab.lift id fun _ _ hcd => hcd.append more, cycle_append more hb⟩

theorem Chain.append {entries : List Text} {address source : Text}
    (h : lib.Chain loads entries address source) :
    lib.Chain (loads ++ more) entries address source := by
  induction h with
  | load hload => exact .load (List.mem_append_left more hload)
  | next _ himports hi hfind hfetch ih => exact ih.next himports hi hfind hfetch

theorem Circular.append {chain : List Text} (h : lib.Circular loads chain) :
    lib.Circular (loads ++ more) chain := by
  cases h with
  | closed hchain himports hi hleads hmem =>
    exact .closed (hchain.append more) himports hi hleads hmem

end Append

end Library

open Library

namespace Way

variable {lib : Library} {loads : List Load} {w : Way}

/-- What is remembered of an open way, read from the load on, is a chain. -/
theorem Open.chain (hplain : lib.Plain loads) : ∀ {w : Way} {i : Import}, w.Open lib loads →
    w.Asks lib loads i → ∃ source is, lib.Chain loads (w.ancestry loads).reverse (w.address loads)
      source ∧ lib.imports (w.address loads) source = .ok is ∧ i ∈ is
  | .load n, i, _, hasks => by
    obtain ⟨load, is, hload, himports, hi⟩ := hasks
    rw [ancestry_load hload, address_load hload]
    exact ⟨load.text, is, .load (List.mem_of_getElem? hload), himports, hi⟩
  | .key _ _, _, _, hasks => hasks.elim
  | .location (.load _) _, _, hopen, _ => by
    cases hopen with
    | location _ hfinds => exact hfinds.elim
  | .location (.location _ _) _, _, hopen, _ => by
    cases hopen with
    | location _ hfinds => exact hfinds.elim
  | .location (.key w i') l, i, hopen, hasks => by
    cases hopen with
    | location hkey hfinds =>
      cases hkey with
      | key hopen hasks' hnot =>
        obtain ⟨raw, is, hfetch, himports, hi⟩ := hasks
        obtain ⟨source, is', hchain, himports', hi'⟩ := Open.chain hplain hopen hasks'
        have hbase := hopen.separator_not_mem_base hplain
        have hfind := hfinds.1
        rw [base_of_mem_imports hbase himports' hi'] at hfind
        refine ⟨raw, is, ?_, himports, hi⟩
        have hancestry : ((Way.location (.key w i') l).ancestry loads).reverse =
            (w.ancestry loads).reverse ++ [i'.key.text, l.text] := by simp [ancestry]
        rw [hancestry]
        exact hchain.next himports' hi' hfind hfetch

/-- An import that leads back to its way closes the chain. -/
theorem Open.circular (hplain : lib.Plain loads) (hopen : w.Open lib loads) {i : Import}
    (hasks : w.Asks lib loads i) {closing : Text} (hleads : closing = i.key.text ∨
      ∃ l, lib.find i.key.base i.file = .ok l ∧ closing = l.text)
    (hmem : closing ∈ w.ancestry loads) :
    lib.Circular loads ((w.ancestry loads).reverse ++ [closing]) := by
  obtain ⟨source, is, hchain, himports, hi⟩ := hopen.chain hplain hasks
  rw [base_of_mem_imports (hopen.separator_not_mem_base hplain) himports hi] at hleads
  exact .closed hchain himports hi hleads (List.mem_reverse.mpr hmem)

end Way

end StyleBatch
