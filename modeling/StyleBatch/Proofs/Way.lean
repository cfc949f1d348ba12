import StyleBatch.Proofs.Library

/-!
# Ways through the import graph

A way goes from a load over keys and locations down to one of them.  It is *open* if no guard
stops it: no key and no location is on it twice, and no location has the address of its load.
Ways are how tasks come about, so what a task can do is read off its way.

* `Way.ancestry`: what the tasks on a way remember of it.
* `Way.Open.reachable`: what an open way leads to is reachable.
* `Way.Open.path`, `Way.Open.path_of_key`: what an ancestry holds leads to the end of the way.
* `Import.Formed.eq`: where there are no bars in addresses, a key determines its import.
-/

namespace StyleBatch

/-- An import as it stands in a source whose base path has no bar. -/
def Import.Formed (i : Import) : Prop :=
  ∃ base, Key.separator ∉ base ∧ i.key = Key.ofParts base i.file

theorem Import.Formed.separator_mem {i : Import} (h : i.Formed) :
    Key.separator ∈ i.key.text := by
  obtain ⟨base, -, hi⟩ := h
  rw [hi, Key.ofParts]
  simp

/-- A key determines its import. -/
theorem Import.Formed.eq {i i' : Import} (h : i.Formed) (h' : i'.Formed) (hkey : i.key = i'.key) :
    i = i' := by
  obtain ⟨base, hbase, hi⟩ := h
  obtain ⟨base', hbase', hi'⟩ := h'
  obtain ⟨-, hfile⟩ := Library.ofParts_inj hbase hbase' (hi ▸ hi' ▸ hkey)
  cases i
  cases i'
  simp_all

namespace Library

variable {lib : Library} {loads : List Load}

theorem formed_of_mem_imports {address source : Text} (hbase : Key.separator ∉ lib.base address)
    {is : List Import} (himports : lib.imports address source = .ok is) {i : Import} (hi : i ∈ is) :
    i.Formed :=
  ⟨lib.base address, hbase, key_of_mem_imports himports hi⟩

/-- The base path of a key is the base path of the source that has the import. -/
theorem base_of_mem_imports {address source : Text} (hbase : Key.separator ∉ lib.base address)
    {is : List Import} (himports : lib.imports address source = .ok is) {i : Import} (hi : i ∈ is) :
    i.key.base = lib.base address := by
  rw [key_of_mem_imports himports hi]
  exact base_ofParts hbase _

theorem separator_mem_of_mem_imports {address source : Text} {is : List Import}
    (himports : lib.imports address source = .ok is) {i : Import} (hi : i ∈ is) :
    Key.separator ∈ i.key.text := by
  rw [key_of_mem_imports himports hi, Key.ofParts]
  simp

/-- The edges of the import graph between addresses: the source of a load, or the file, at
the one has an import that leads to the other. -/
def Edge (lib : Library) (loads : List Load) (a b : Text) : Prop :=
  (∃ load ∈ loads, load.address = a ∧ lib.Leads a load.text ⟨b⟩) ∨ lib.Imports ⟨a⟩ ⟨b⟩

end Library

open Library

/-- A way from a load down to a key or a location. -/
inductive Way where
  | load (n : Nat)
  | key (way : Way) (i : Import)
  | location (way : Way) (l : Location)
deriving DecidableEq

namespace Way

/-- What stands at the end of a way. -/
inductive Node where
  | load (n : Nat)
  | key (k : Key)
  | location (l : Location)
deriving DecidableEq

def node : Way → Node
  | load n => .load n
  | key _ i => .key i.key
  | location _ l => .location l

/-- The number of the load that a way comes from. -/
def number : Way → Nat
  | load n => n
  | key way _ => way.number
  | location way _ => way.number

section

variable (lib : Library) (loads : List Load)

/-- The address of the source that is last on a way. -/
def address : Way → Text
  | load n => (loads[n]?.map Load.address).getD []
  | key way _ => way.address
  | location _ l => l.text

/-- The addresses and keys on a way, the latest first. -/
def ancestry : Way → Ancestry
  | load n => [(Way.load n).address loads]
  | key way i => i.key.text :: way.ancestry
  | location way l => l.text :: way.ancestry

/-- The end of a way is a source that has an import. -/
def Asks : Way → Import → Prop
  | load n, i => ∃ source is, loads[n]? = some source ∧
    lib.imports source.address source.text = .ok is ∧ i ∈ is
  | key _ _, _ => False
  | location _ l, i => ∃ raw is, lib.fetch l = .ok raw ∧ lib.imports l.text raw = .ok is ∧ i ∈ is

/-- The end of a way is a key, and leads to a location. -/
def Finds : Way → Location → Prop
  | key way i, l => lib.find i.key.base i.file = .ok l ∧ l.text ∉ way.ancestry loads
  | _, _ => False

/-- Nothing is twice on the way. -/
inductive Open : Way → Prop
  | load {n : Nat} : n < loads.length → Open (load n)
  | key {way : Way} {i : Import} : Open way → way.Asks lib loads i →
      i.key.text ∉ way.ancestry loads → Open (key way i)
  | location {way : Way} {l : Location} : Open way → way.Finds lib loads l →
      Open (location way l)

end

variable {lib : Library} {loads : List Load} {w : Way}

theorem address_load {n : Nat} {source : Load} (h : loads[n]? = some source) :
    (Way.load n).address loads = source.address := by
  rw [address, h]
  rfl

theorem ancestry_load {n : Nat} {source : Load} (h : loads[n]? = some source) :
    (Way.load n).ancestry loads = [source.address] := by
  rw [ancestry, address_load h]

/-- What asks for an import has an address and a source that holds the import. -/
theorem Asks.exists_source {i : Import} (h : w.Asks lib loads i) :
    ∃ source is, lib.imports (w.address loads) source = .ok is ∧ i ∈ is ∧
      ∀ l, lib.Leads (w.address loads) source l → lib.Edge loads (w.address loads) l.text := by
  cases w with
  | load n =>
    obtain ⟨load, is, hload, himports, hi⟩ := h
    rw [address_load hload]
    exact ⟨load.text, is, himports, hi, fun l hl =>
      Or.inl ⟨load, List.mem_of_getElem? hload, rfl, hl⟩⟩
  | key w' i' => exact h.elim
  | location w' l =>
    obtain ⟨raw, is, hfetch, himports, hi⟩ := h
    exact ⟨raw, is, himports, hi, fun l' hl' => Or.inr ⟨raw, hfetch, hl'⟩⟩

/-- Where the way goes on, the graph has an edge. -/
theorem Asks.edge {i : Import} (h : w.Asks lib loads i)
    (hbase : Key.separator ∉ lib.base (w.address loads)) {l : Location}
    (hfind : lib.find i.key.base i.file = .ok l) :
    lib.Edge loads (w.address loads) l.text := by
  obtain ⟨source, is, himports, hi, hedge⟩ := h.exists_source
  rw [base_of_mem_imports hbase himports hi] at hfind
  exact hedge l ⟨is, himports, i, hi, hfind⟩

theorem Asks.formed {i : Import} (h : w.Asks lib loads i)
    (hbase : Key.separator ∉ lib.base (w.address loads)) : i.Formed := by
  obtain ⟨source, is, himports, hi, -⟩ := h.exists_source
  exact formed_of_mem_imports hbase himports hi

theorem Asks.separator_mem {i : Import} (h : w.Asks lib loads i) :
    Key.separator ∈ i.key.text := by
  obtain ⟨source, is, himports, hi, -⟩ := h.exists_source
  exact separator_mem_of_mem_imports himports hi

/-- A location at the end of an open way is reachable. -/
theorem Open.reachable (hplain : lib.Plain loads) :
    ∀ {w : Way} {l : Location}, (Way.location w l).Open lib loads → lib.Reachable loads l
  | .load _, _, .location _ hfinds => hfinds.elim
  | .location _ _, _, .location _ hfinds => hfinds.elim
  | .key (.key _ _) _, _, .location (.key _ hasks _) _ => hasks.elim
  | .key (.load n) i, l, .location (.key _ hasks _) hfinds => by
    obtain ⟨load, is, hload, himports, hi⟩ := hasks
    have hmem := List.mem_of_getElem? hload
    refine .direct hmem ⟨is, himports, i, hi, ?_⟩
    rw [← base_of_mem_imports (hplain.load _ hmem) himports hi]
    exact hfinds.1
  | .key (.location _ l₀) i, l, .location (.key hopen hasks _) hfinds => by
    obtain ⟨raw, is, hfetch, himports, hi⟩ := hasks
    have hreachable := Open.reachable hplain hopen
    refine .nested hreachable ⟨raw, hfetch, is, himports, i, hi, ?_⟩
    rw [← base_of_mem_imports (hplain.location l₀ hreachable) himports hi]
    exact hfinds.1

/-- What stands on an open way is a load or reachable. -/
theorem Open.address_cases (h : w.Open lib loads) (hplain : lib.Plain loads) :
    (∃ load ∈ loads, w.address loads = load.address) ∨
      ∃ l, lib.Reachable loads l ∧ w.address loads = l.text := by
  induction h with
  | @load n hn =>
    exact Or.inl ⟨loads[n], List.getElem_mem hn, address_load (List.getElem?_eq_getElem hn)⟩
  | key _ _ _ ih => exact ih
  | location hopen hfinds _ => exact Or.inr ⟨_, (hopen.location hfinds).reachable hplain, rfl⟩

theorem Open.separator_not_mem_base (h : w.Open lib loads) (hplain : lib.Plain loads) :
    Key.separator ∉ lib.base (w.address loads) := by
  rcases h.address_cases hplain with ⟨load, hload, heq⟩ | ⟨l, hl, heq⟩
  · exact heq ▸ hplain.load load hload
  · exact heq ▸ hplain.location l hl

theorem Open.separator_not_mem (h : w.Open lib loads) (hbarless : lib.Barless loads) :
    Key.separator ∉ w.address loads := by
  rcases h.address_cases hbarless.plain with ⟨load, hload, heq⟩ | ⟨l, hl, heq⟩
  · exact heq ▸ hbarless.load load hload
  · exact heq ▸ hbarless.location l hl

/-- An address on an open way leads to the end of the way. -/
theorem Open.path (h : w.Open lib loads) (hplain : lib.Plain loads) {a : Text}
    (ha : a ∈ w.ancestry loads) (hbar : Key.separator ∉ a) :
    Relation.ReflTransGen (lib.Edge loads) a (w.address loads) := by
  induction h with
  | load =>
    rw [ancestry, List.mem_singleton] at ha
    rw [ha]
  | key _ hasks _ ih =>
    rcases List.mem_cons.mp ha with rfl | ha
    · exact absurd hasks.separator_mem hbar
    · exact ih ha
  | @location way l hopen hfinds ih =>
    rcases List.mem_cons.mp ha with rfl | ha
    · exact .refl
    · cases hopen with
      | load => exact hfinds.elim
      | location => exact hfinds.elim
      | key hopen hasks _ =>
        exact (ih ha).tail (hasks.edge (hopen.separator_not_mem_base hplain) hfinds.1)

/-- A key on an open way is its end, or has found a location that leads on. -/
theorem Open.path_of_key (h : w.Open lib loads) (hbarless : lib.Barless loads) {i : Import}
    (hi : i.Formed) (hkey : i.key.text ∈ w.ancestry loads) :
    (∃ way i', w = .key way i' ∧ i'.key = i.key) ∨
      ∃ l, lib.find i.key.base i.file = .ok l ∧
        Relation.ReflTransGen (lib.Edge loads) l.text (w.address loads) := by
  induction h with
  | @load n hn =>
    rw [ancestry, List.mem_singleton] at hkey
    have hload : (Way.load n).Open lib loads := .load hn
    have hbar := hload.separator_not_mem hbarless
    exact absurd (hkey ▸ hi.separator_mem) hbar
  | @key way i' hopen hasks _ ih =>
    rcases List.mem_cons.mp hkey with hkey | hkey
    · exact Or.inl ⟨way, i', rfl, by cases h : i.key; cases h' : i'.key; simp_all⟩
    · rcases ih hkey with ⟨way', i'', rfl, -⟩ | hpath
      · exact hasks.elim
      · exact Or.inr hpath
  | @location way l hopen hfinds ih =>
    have hbar := (hopen.location hfinds).separator_not_mem hbarless
    rcases List.mem_cons.mp hkey with hkey | hkey
    · exact absurd (hkey ▸ hi.separator_mem : Key.separator ∈ l.text) hbar
    · cases hopen with
      | load => exact hfinds.elim
      | location => exact hfinds.elim
      | @key way i' hopen hasks _ =>
        have hbase := hopen.separator_not_mem_base hbarless.plain
        right
        rcases ih hkey with ⟨way', i'', heq, hkey'⟩ | ⟨l', hfind, hpath⟩
        · cases heq
          have hi' : i' = i := (hasks.formed hbase).eq hi hkey'
          exact ⟨l, hi' ▸ hfinds.1, .refl⟩
        · exact ⟨l', hfind, hpath.tail (hasks.edge hbase hfinds.1)⟩

/-- A source that asks for a key on its way is on a cycle. -/
theorem Open.cycle_of_key (h : w.Open lib loads) (hbarless : lib.Barless loads) {i : Import}
    (hasks : w.Asks lib loads i) (hkey : i.key.text ∈ w.ancestry loads) :
    Relation.TransGen (lib.Edge loads) (w.address loads) (w.address loads) := by
  have hbase := h.separator_not_mem_base hbarless.plain
  rcases h.path_of_key hbarless (hasks.formed hbase) hkey with ⟨way, i', rfl, -⟩ | ⟨l, hfind, hpath⟩
  · exact hasks.elim
  · exact .head' (hasks.edge hbase hfind) hpath

/-- A key that finds an address on its way finds a cycle. -/
theorem Open.cycle_of_location (h : w.Open lib loads) (hbarless : lib.Barless loads) {i : Import}
    (hasks : w.Asks lib loads i) {l : Location} (hfind : lib.find i.key.base i.file = .ok l)
    (hl : l.text ∈ w.ancestry loads) (hbar : Key.separator ∉ l.text) :
    Relation.TransGen (lib.Edge loads) l.text l.text := by
  have hpath := h.path hbarless.plain hl hbar
  exact .tail' hpath (hasks.edge (h.separator_not_mem_base hbarless.plain) hfind)

/-- What a way leads to is reachable. -/
theorem Asks.reachable (h : w.Open lib loads) (hplain : lib.Plain loads) {i : Import}
    (hasks : w.Asks lib loads i) {l : Location} (hfind : lib.find i.key.base i.file = .ok l) :
    lib.Reachable loads l := by
  have hbase := h.separator_not_mem_base hplain
  cases w with
  | key => exact hasks.elim
  | load n =>
    obtain ⟨load, is, hload, himports, hi⟩ := hasks
    have hmem := List.mem_of_getElem? hload
    rw [base_of_mem_imports (hplain.load _ hmem) himports hi] at hfind
    exact .direct hmem ⟨is, himports, i, hi, hfind⟩
  | location way l₀ =>
    obtain ⟨raw, is, hfetch, himports, hi⟩ := hasks
    have hreachable := h.reachable hplain
    rw [base_of_mem_imports (hplain.location l₀ hreachable) himports hi] at hfind
    exact .nested hreachable ⟨raw, hfetch, is, himports, i, hi, hfind⟩

end Way

end StyleBatch
