import Mathlib.Data.Fintype.Card
import Mathlib.Data.Set.Finite.Lattice
import Mathlib.Data.Set.Finite.List
import StyleBatch.Proofs.Way

/-!
# Finite import graphs

A loader finds finitely many locations: in memory its files, on disk the addresses of paths,
which are of bounded length.

* `Library.finite_located`: the locations that can be found.
* `Library.finite_keys`: the keys of the imports of loads and of locations that can be found.
* `Library.Acyclic.acc`: where no cycle is reached, the edges of the graph are well-founded.
-/

namespace StyleBatch

namespace Text

theorem length_le_byteSize (t : Text) : t.length ≤ byteSize t := by
  induction t with
  | nil => exact le_rfl
  | cons c rest ih =>
    have hc : 0 < c.utf8Size := Char.utf8Size_pos c
    simp only [byteSize, List.foldr_cons, List.length_cons] at ih ⊢
    omega

theorem toNat_lt (c : Char) : c.toNat < 0x110000 := by
  rcases c.valid with h | ⟨-, h⟩
  · exact lt_trans h (by decide)
  · exact h

instance finite_char : Finite Char :=
  Finite.of_injective (fun c => (⟨c.toNat, toNat_lt c⟩ : Fin 0x110000)) fun _ _ h =>
    Char.toNat_inj.mp (Fin.mk.inj h)

theorem finite_byteSize_lt (n : Nat) : {t : Text | byteSize t < n}.Finite :=
  (List.finite_length_lt Char n).subset fun t ht => (length_le_byteSize t).trans_lt ht

end Text

namespace Disk

/-- What is on a disk has a path of bounded length. -/
theorem byteSize_lt_of_has {disk : Disk} {path : Text} (h : disk.has path = true) :
    Text.byteSize path < 4096 := by
  by_contra hlong
  have hplace : ∃ fault, disk.place path = .error fault := by
    rw [place]
    split
    · exact ⟨_, rfl⟩
    · split
      · exact ⟨_, rfl⟩
      · rw [if_pos (by omega)]
        exact ⟨_, rfl⟩
  obtain ⟨fault, hplace⟩ := hplace
  simp [has, lookup, hplace] at h

end Disk

namespace Library

variable (lib : Library)

/-- A location that can be found. -/
def Located (l : Location) : Prop :=
  ∃ base file, lib.find base file = .ok l

/-- What is found was probed. -/
theorem exists_probe_of_find {lib : Library} {base file : Text} {l : Location}
    (h : lib.find base file = .ok l) :
    ∃ candidate address, lib.loader.probe? lib.disk candidate = some address ∧
      l = Location.ofAddress address := by
  simp only [find, Loader.locate, bind, Except.bind] at h
  cases hname : lib.loader.normalize file base with
  | error fault => simp [hname] at h
  | ok name =>
    simp only [hname] at h
    cases hfound : (lib.loader.candidates name).findSome? fun c =>
        lib.loader.probe? lib.disk c with
    | none => simp [hfound] at h
    | some address =>
      simp only [hfound, pure, Except.pure, Except.ok.injEq] at h
      obtain ⟨candidate, -, hprobe⟩ := List.exists_of_findSome?_eq_some hfound
      exact ⟨candidate, address, hprobe, h.symm⟩

theorem finite_located : {l | lib.Located l}.Finite := by
  have hprobed : {address | ∃ c, lib.loader.probe? lib.disk c = some address}.Finite := by
    cases lib.loader with
    | memory files aliases suffix delay =>
      refine ((Table.keys files).finite_toSet.image fun c => c ++ suffix.getD []).subset ?_
      rintro address ⟨c, hc⟩
      rw [Loader.probe?] at hc
      split at hc
      · rename_i hhas
        cases hc
        exact ⟨c, Table.mem_keys_iff.mpr hhas, rfl⟩
      · cases hc
    | disk root =>
      refine ((Text.finite_byteSize_lt 4096).image (Loader.addressOf root)).subset ?_
      rintro address ⟨c, hc⟩
      rw [Loader.probe?] at hc
      split at hc
      · rename_i hhas
        cases hc
        exact ⟨c, Disk.byteSize_lt_of_has hhas, rfl⟩
      · cases hc
  refine (hprobed.image Location.ofAddress).subset ?_
  rintro l ⟨base, file, hfind⟩
  obtain ⟨candidate, address, hprobe, rfl⟩ := exists_probe_of_find hfind
  exact ⟨address, ⟨candidate, hprobe⟩, rfl⟩

/-! ## Keys -/

variable (loads : List Load)

/-- A key of an import in a load or in the file at a location that can be found. -/
def Named (k : Key) : Prop :=
  ∃ address source is, ((∃ load ∈ loads, load.address = address ∧ load.text = source) ∨
      ∃ l, lib.Located l ∧ l.text = address ∧ lib.fetch l = .ok source) ∧
    lib.imports address source = .ok is ∧ ∃ i ∈ is, i.key = k

theorem finite_keys : {k | lib.Named loads k}.Finite := by
  have hsource : ∀ address source, {k | ∃ is, lib.imports address source = .ok is ∧
      ∃ i ∈ is, i.key = k}.Finite := by
    intro address source
    cases himports : lib.imports address source with
    | error fault =>
      refine Set.finite_empty.subset ?_
      rintro k ⟨is, h, -⟩
      cases h
    | ok is =>
      refine (is.finite_toSet.image Import.key).subset ?_
      rintro k ⟨is', h, i, hi, rfl⟩
      cases h
      exact ⟨i, hi, rfl⟩
  have hloads := loads.finite_toSet.biUnion fun load _ => hsource load.address load.text
  have hlocations := lib.finite_located.biUnion fun l _ =>
    hsource l.text (match lib.fetch l with
      | .ok source => source
      | .error _ => [])
  refine (hloads.union hlocations).subset ?_
  rintro k ⟨address, source, is, ⟨load, hload, rfl, rfl⟩ | ⟨l, hl, rfl, hfetch⟩, himports, hk⟩
  · exact Or.inl (Set.mem_biUnion hload ⟨is, himports, hk⟩)
  · refine Or.inr (Set.mem_biUnion hl ⟨is, ?_, hk⟩)
    rw [hfetch]
    exact himports

/-! ## Cycles -/

/-- No cycle of imports can be reached from an address. -/
def Acyclic (a : Text) : Prop :=
  ∀ b, Relation.ReflTransGen (lib.Edge loads) a b → ¬Relation.TransGen (lib.Edge loads) b b

variable {lib loads}

theorem Leads.located {address source : Text} {l : Location} (h : lib.Leads address source l) :
    lib.Located l := by
  obtain ⟨is, -, i, -, hfind⟩ := h
  exact ⟨_, _, hfind⟩

theorem Edge.located {a b : Text} (h : lib.Edge loads a b) : lib.Located ⟨b⟩ := by
  rcases h with ⟨load, -, -, hleads⟩ | ⟨raw, -, hleads⟩
  · exact hleads.located
  · exact hleads.located

theorem Acyclic.of_edge {a b : Text} (h : lib.Acyclic loads a) (hab : lib.Edge loads a b) :
    lib.Acyclic loads b :=
  fun c hc => h c (.head hab hc)

/-- Where every import goes up there is no cycle. -/
theorem acyclic_of_rank {rank : Text → Nat} (h : ∀ b c, lib.Edge loads b c → rank b < rank c)
    (a : Text) : lib.Acyclic loads a := by
  have hup : ∀ {b c}, Relation.TransGen (lib.Edge loads) b c → rank b < rank c := by
    intro b c hbc
    induction hbc with
    | single hedge => exact h _ _ hedge
    | tail _ hedge ih => exact ih.trans (h _ _ hedge)
  exact fun b _ hcycle => lt_irrefl _ (hup hcycle)

/-- In a finite graph a descent without cycles ends. -/
theorem Acyclic.acc {a : Text} (h : lib.Acyclic loads a) :
    Acc (fun b a => lib.Edge loads a b) a := by
  have hfinite : Finite {b // Relation.ReflTransGen (lib.Edge loads) a b} := by
    refine Set.Finite.subset ((lib.finite_located.image Location.text).insert a) ?_
    intro b hb
    rcases Relation.ReflTransGen.cases_tail hb with rfl | ⟨c, -, hcb⟩
    · exact Set.mem_insert _ _
    · exact Set.mem_insert_of_mem _ ⟨⟨b⟩, hcb.located, rfl⟩
  let below : {b // Relation.ReflTransGen (lib.Edge loads) a b} →
      {b // Relation.ReflTransGen (lib.Edge loads) a b} → Prop :=
    fun c b => Relation.TransGen (lib.Edge loads) b.1 c.1
  have htrans : IsTrans _ below := ⟨fun _ _ _ hcb hdc => hdc.trans hcb⟩
  have hirrefl : Std.Irrefl below := ⟨fun b => h b.1 b.2⟩
  have hwf : WellFounded below := Finite.wellFounded_of_trans_of_irrefl below
  have hacc : ∀ b : {b // Relation.ReflTransGen (lib.Edge loads) a b},
      Acc (fun b a => lib.Edge loads a b) b.1 := by
    intro b
    induction b using hwf.induction with
    | h b ih => exact ⟨b.1, fun c hbc => ih ⟨c, b.2.tail hbc⟩ (.single hbc)⟩
  exact hacc ⟨a, .refl⟩

end Library

end StyleBatch
