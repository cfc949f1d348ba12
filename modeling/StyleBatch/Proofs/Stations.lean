import StyleBatch.Proofs.Acyclic
import StyleBatch.Proofs.Expansion

/-!
# The directives of a tree in their order

The directives of a tree have an order: a directive comes before those of the location that was put
in its place, and these come before the next one of the same source.  In this order a location is put
in the place of the first hole that waits for its key.

* `Pieces.stations`: the directives of a tree in their order, with what stands in the place of each.
* `Pieces.stations_put`: the first hole of a key is the one that is exchanged.
* `Grown.station`: a station is a directive of its site.
* `Grown.chain`: the sites of a tree hang together.
* `Grown.exists_station`: the sites of a tree have all of their directives in it.
-/

namespace StyleBatch

open Resolution

/-- What stands in the place of a directive. -/
inductive Station where
  | hole (k : Key)
  | cleared
  | filled (l : Location)

def Station.location? : Station → Option Location
  | filled l => some l
  | _ => none

namespace Pieces

/-- Every directive of a tree with its site and number, and with what stands in its place. -/
def stations : Pieces → Site → Nat → List ((Site × Nat) × Station)
  | nil, _, _ => []
  | text _ rest, s, j => rest.stations s j
  | hole k rest, s, j => ((s, j), .hole k) :: rest.stations s (j + 1)
  | cleared rest, s, j => ((s, j), .cleared) :: rest.stations s (j + 1)
  | filled l inner rest, s, j =>
    ((s, j), .filled l) :: (inner.stations (.location l) 0 ++ rest.stations s (j + 1))

variable {p p' : Pieces} {s : Site} {j : Nat}

theorem marks_eq (p : Pieces) (s : Site) (j : Nat) :
    p.marks s j = (p.stations s j).map fun x => (x.1, x.2.location?) := by
  induction p generalizing s j with
  | nil => rfl
  | text t rest ih => exact ih s j
  | hole k rest ih => exact congrArg _ (ih s (j + 1))
  | cleared rest ih => exact congrArg _ (ih s (j + 1))
  | filled l inner rest ihinner ih =>
    rw [stations, marks, List.map_cons, List.map_append, ihinner, ih]
    rfl

theorem mem_places_iff {l : Location} :
    l ∈ p.places ↔ ∃ o, (o, .filled l) ∈ p.stations s j := by
  rw [← filterMap_marks p s j, marks_eq, List.filterMap_map, List.mem_filterMap]
  constructor
  · rintro ⟨⟨o, st⟩, hx, hl⟩
    cases st with
    | filled l' =>
      cases hl
      exact ⟨o, hx⟩
    | hole k => cases hl
    | cleared => cases hl
  · rintro ⟨o, ho⟩
    exact ⟨_, ho, rfl⟩

theorem hole_mem_tokens {o : Site × Nat} {k : Key} (h : (o, .hole k) ∈ p.stations s j) :
    .hole k ∈ p.tokens := by
  induction p generalizing s j with
  | nil => cases h
  | text t rest ih => exact List.mem_cons_of_mem _ (ih h)
  | hole k' rest ih =>
    rcases List.mem_cons.mp h with h | h
    · cases h
      exact List.mem_cons_self
    · exact List.mem_cons_of_mem _ (ih h)
  | cleared rest ih =>
    rcases List.mem_cons.mp h with h | h
    · cases h
    · exact ih h
  | filled l inner rest ihinner ih =>
    rw [stations, List.mem_cons, List.mem_append] at h
    rcases h with h | h | h
    · cases h
    · exact List.mem_append_left _ (ihinner h)
    · exact List.mem_append_right _ (ih h)

/-- Stations are of the own site or of a location of the tree. -/
theorem station_cases {x : (Site × Nat) × Station} (h : x ∈ p.stations s j) :
    (x.1.1 = s ∧ j ≤ x.1.2) ∨ ∃ l ∈ p.places, x.1.1 = .location l := by
  have hm : (x.1, x.2.location?) ∈ p.marks s j := by
    rw [marks_eq]
    exact List.mem_map_of_mem h
  exact mark_cases hm

/-- What `put` does to the stations. -/
theorem stations_put {k : Key} {f : Pieces → Pieces}
    {g : Site → Nat → List ((Site × Nat) × Station)}
    (hf : ∀ (rest : Pieces) (s : Site) (j : Nat),
      (f rest).stations s j = g s j ++ rest.stations s (j + 1))
    (h : p.put k f = some p') (s : Site) (j : Nat) :
    ∃ before o after, p.stations s j = before ++ (o, .hole k) :: after ∧
      (∀ x ∈ before, x.2 ≠ .hole k) ∧ p'.stations s j = before ++ (g o.1 o.2 ++ after) := by
  induction p generalizing p' s j with
  | nil => cases h
  | text t rest ih =>
    obtain ⟨rest', hrest, rfl⟩ := Option.map_eq_some_iff.mp h
    exact ih hrest s j
  | hole k' rest ih =>
    rw [put] at h
    split at h
    · rename_i heq
      cases h
      exact ⟨[], (s, j), rest.stations s (j + 1), by rw [stations, heq, List.nil_append], by simp,
        hf rest s j⟩
    · rename_i hne
      obtain ⟨rest', hrest, rfl⟩ := Option.map_eq_some_iff.mp h
      obtain ⟨before, o, after, heq, hfirst, heq'⟩ := ih hrest s (j + 1)
      refine ⟨((s, j), .hole k') :: before, o, after, ?_, ?_, ?_⟩
      · rw [stations, heq, List.cons_append]
      · intro x hx
        rcases List.mem_cons.mp hx with rfl | hx
        · exact fun heq => hne (Station.hole.inj heq)
        · exact hfirst x hx
      · rw [stations, heq', List.cons_append]
  | cleared rest ih =>
    obtain ⟨rest', hrest, rfl⟩ := Option.map_eq_some_iff.mp h
    obtain ⟨before, o, after, heq, hfirst, heq'⟩ := ih hrest s (j + 1)
    refine ⟨((s, j), .cleared) :: before, o, after, ?_, ?_, ?_⟩
    · rw [stations, heq, List.cons_append]
    · intro x hx
      rcases List.mem_cons.mp hx with rfl | hx
      · simp
      · exact hfirst x hx
    · rw [stations, heq', List.cons_append]
  | filled l inner rest ihinner ihrest =>
    rw [put] at h
    split at h
    · rename_i inner' hinner
      cases h
      obtain ⟨before, o, after, heq, hfirst, heq'⟩ := ihinner hinner (.location l) 0
      refine ⟨((s, j), .filled l) :: before, o, after ++ rest.stations s (j + 1), ?_, ?_, ?_⟩
      · rw [stations, heq, List.cons_append, List.append_assoc, List.cons_append]
      · intro x hx
        rcases List.mem_cons.mp hx with rfl | hx
        · simp
        · exact hfirst x hx
      · rw [stations, heq', List.cons_append, List.append_assoc, List.append_assoc]
    · rename_i hinner
      obtain ⟨rest', hrest, rfl⟩ := Option.map_eq_some_iff.mp h
      obtain ⟨before, o, after, heq, hfirst, heq'⟩ := ihrest hrest s (j + 1)
      refine ⟨((s, j), .filled l) :: (inner.stations (.location l) 0 ++ before), o, after,
        ?_, ?_, ?_⟩
      · rw [stations, heq, List.cons_append, List.append_assoc]
      · intro x hx
        rw [List.mem_cons, List.mem_append] at hx
        rcases hx with rfl | hx | hx
        · simp
        · intro hhole
          obtain ⟨o, st⟩ := x
          cases hhole
          exact hole_not_mem_of_put hinner (hole_mem_tokens hx)
        · exact hfirst x hx
      · rw [stations, heq', List.cons_append, List.append_assoc]

end Pieces

namespace Library

variable (lib : Library) (loads : List Load)

/-- The directive with this number leads from the site to the location, under the key. -/
def OccursAs (s : Site) (j : Nat) (k : Key) (l : Location) : Prop :=
  ∃ address source is i, lib.source? loads s = some (address, source) ∧
    lib.imports address source = .ok is ∧ is[j]? = some i ∧ i.key = k ∧
    lib.find (lib.base address) i.file = .ok l

/-- The keys of the directives of a site, and the locations that they lead to. -/
def row (s : Site) : List (Key × Option Location) :=
  match lib.source? loads s with
  | none => []
  | some (address, source) =>
    match lib.imports address source with
    | .error _ => []
    | .ok is => is.map fun i => (i.key, (lib.find (lib.base address) i.file).toOption)

/-- The directive with this number is the import, and the base path of its site has no bar. -/
def HasDirective (s : Site) (j : Nat) (i : Import) : Prop :=
  ∃ address source is, lib.source? loads s = some (address, source) ∧
    lib.imports address source = .ok is ∧ Key.separator ∉ lib.base address ∧ is[j]? = some i

/-- From this directive on, the imports of the site are these. -/
def Remain (s : Site) (j : Nat) (is : List Import) : Prop :=
  ∃ address source all, lib.source? loads s = some (address, source) ∧
    lib.imports address source = .ok all ∧ Key.separator ∉ lib.base address ∧ all.drop j = is

/-- A directive of the one site leads to the other one. -/
def Link (s s' : Site) : Prop :=
  ∃ j l, lib.Occurs loads s j l ∧ s' = .location l

variable {lib loads}

section Directives

variable {s : Site} {j : Nat} {i : Import} {is : List Import} {k k' : Key} {l l' : Location}

theorem OccursAs.occurs (h : lib.OccursAs loads s j k l) : lib.Occurs loads s j l := by
  obtain ⟨address, source, is, i, hsource, himports, hi, -, hfind⟩ := h
  exact ⟨address, source, is, i, hsource, himports, hi, hfind⟩

theorem occursAs_iff : lib.OccursAs loads s j k l ↔ (lib.row loads s)[j]? = some (k, some l) := by
  rw [row]
  constructor
  · rintro ⟨address, source, is, i, hsource, himports, hi, rfl, hfind⟩
    simp [hsource, himports, hi, hfind, Except.toOption]
  · intro h
    split at h
    · cases h
    · rename_i address source hsource
      split at h
      · cases h
      · rename_i is himports
        rw [List.getElem?_map, Option.map_eq_some_iff] at h
        obtain ⟨i, hi, heq⟩ := h
        rw [Prod.mk.injEq] at heq
        obtain ⟨rfl, hfind⟩ := heq
        refine ⟨address, source, is, i, hsource, himports, hi, rfl, ?_⟩
        cases hfound : lib.find (lib.base address) i.file with
        | error fault =>
          rw [hfound] at hfind
          cases hfind
        | ok l' =>
          rw [hfound] at hfind
          cases hfind
          rfl

theorem Occurs.exists_key (h : lib.Occurs loads s j l) : ∃ k, lib.OccursAs loads s j k l := by
  obtain ⟨address, source, is, i, hsource, himports, hi, hfind⟩ := h
  exact ⟨i.key, address, source, is, i, hsource, himports, hi, rfl, hfind⟩

theorem Occurs.lt_length (h : lib.Occurs loads s j l) {address source : Text}
    (hsource : lib.source? loads s = some (address, source))
    (himports : lib.imports address source = .ok is) : j < is.length := by
  obtain ⟨address', source', is', i, hsource', himports', hi, -⟩ := h
  rw [hsource] at hsource'
  cases hsource'
  rw [himports] at himports'
  cases himports'
  exact (List.getElem?_eq_some_iff.mp hi).1

/-- A directive at a location is one of its imports. -/
theorem Occurs.imports {l₀ : Location} (h : lib.Occurs loads (.location l₀) j l) :
    lib.Imports l₀ l := by
  obtain ⟨address, source, is, i, hsource, himports, hi, hfind⟩ := h
  rw [source?] at hsource
  split at hsource
  · rename_i hfetch
    cases hsource
    exact ⟨source, hfetch, is, himports, i, List.mem_of_getElem? hi, hfind⟩
  · cases hsource

namespace HasDirective

theorem formed (h : lib.HasDirective loads s j i) : i.Formed := by
  obtain ⟨address, source, is, -, himports, hbase, hi⟩ := h
  exact formed_of_mem_imports hbase himports (List.mem_of_getElem? hi)

theorem occursAs (h : lib.HasDirective loads s j i) (hfind : lib.find i.key.base i.file = .ok l) :
    lib.OccursAs loads s j i.key l := by
  obtain ⟨address, source, is, hsource, himports, hbase, hi⟩ := h
  rw [base_of_mem_imports hbase himports (List.mem_of_getElem? hi)] at hfind
  exact ⟨address, source, is, i, hsource, himports, hi, rfl, hfind⟩

/-- A directive leads to one location, under one key. -/
theorem eq_of_occursAs (h : lib.HasDirective loads s j i) (h' : lib.OccursAs loads s j k l) :
    i.key = k ∧ lib.find i.key.base i.file = .ok l := by
  obtain ⟨address, source, is, hsource, himports, hbase, hi⟩ := h
  obtain ⟨address', source', is', i', hsource', himports', hi', rfl, hfind⟩ := h'
  rw [hsource] at hsource'
  cases hsource'
  rw [himports] at himports'
  cases himports'
  rw [hi] at hi'
  cases hi'
  rw [base_of_mem_imports hbase himports (List.mem_of_getElem? hi)]
  exact ⟨rfl, hfind⟩

end HasDirective

theorem Remain.head (h : lib.Remain loads s j (i :: is)) : lib.HasDirective loads s j i := by
  obtain ⟨address, source, all, hsource, himports, hbase, his⟩ := h
  exact ⟨address, source, all, hsource, himports, hbase, (of_drop_eq_cons his).1⟩

theorem Remain.tail (h : lib.Remain loads s j (i :: is)) : lib.Remain loads s (j + 1) is := by
  obtain ⟨address, source, all, hsource, himports, hbase, his⟩ := h
  exact ⟨address, source, all, hsource, himports, hbase, (of_drop_eq_cons his).2⟩

theorem remain_location {raw : Text} (hfetch : lib.fetch l = .ok raw)
    (himports : lib.imports l.text raw = .ok is) (hbase : Key.separator ∉ lib.base l.text) :
    lib.Remain loads (.location l) 0 is :=
  ⟨l.text, raw, is, by rw [source?, hfetch], himports, hbase, rfl⟩

theorem remain_load {n : Nat} {load : Load} (hload : loads[n]? = some load)
    (himports : lib.imports load.address load.text = .ok is)
    (hbase : Key.separator ∉ lib.base load.address) : lib.Remain loads (.load n) 0 is :=
  ⟨load.address, load.text, is, by rw [source?, hload, Option.map_some], himports, hbase, rfl⟩

/-- An edge of the import graph is a directive of a site. -/
theorem Edge.exists_occursAs {a b : Text} (h : lib.Edge loads a b) :
    ∃ s source j k, lib.source? loads s = some (a, source) ∧ lib.OccursAs loads s j k ⟨b⟩ := by
  rcases h with ⟨load, hload, rfl, is, himports, i, hi, hfind⟩ |
    ⟨raw, hfetch, is, himports, i, hi, hfind⟩
  · obtain ⟨n, hn⟩ := List.getElem?_of_mem hload
    obtain ⟨j, hj⟩ := List.getElem?_of_mem hi
    have hsource : lib.source? loads (.load n) = some (load.address, load.text) := by
      rw [source?, hn, Option.map_some]
    exact ⟨.load n, load.text, j, i.key, hsource, _, _, is, i, hsource, himports, hj, rfl, hfind⟩
  · obtain ⟨j, hj⟩ := List.getElem?_of_mem hi
    have hsource : lib.source? loads (.location ⟨a⟩) = some (a, raw) := by rw [source?, hfetch]
    exact ⟨.location ⟨a⟩, raw, j, i.key, hsource, _, _, is, i, hsource, himports, hj, rfl, hfind⟩

end Directives

/-! ## Sites in memory -/

section Memory

variable {files aliases : Table Text Text} {suffix : Option Text} {delay : Nat}
  {extension : Text} {disk : Disk}

/-- The loads, and the files in memory. -/
def sites (loads : List Load) (files : Table Text Text) : List Site :=
  (List.range loads.length).map .load ++ (Table.keys files).map fun name => .location ⟨name⟩

/-- In memory only loads and files have a source. -/
theorem mem_sites_of_source? {s : Site} {x : Text × Text}
    (h : source? ⟨.memory files aliases suffix delay, extension, disk⟩ loads s = some x) :
    s ∈ sites loads files := by
  rw [sites, List.mem_append, List.mem_map, List.mem_map]
  cases s with
  | load n =>
    obtain ⟨load, hload, -⟩ := Option.map_eq_some_iff.mp h
    exact Or.inl ⟨n, List.mem_range.mpr (List.getElem?_eq_some_iff.mp hload).1, rfl⟩
  | location l =>
    rw [source?] at h
    split at h
    · rename_i raw hfetch
      exact Or.inr ⟨l.text, List.mem_map_of_mem (mem_files_of_fetch hfetch), rfl⟩
    · cases h

/-- Files in memory have no cycle when every directive leads to a later address of a list. -/
theorem acyclic_memory (order : List Text)
    (h : ∀ s ∈ sites loads files,
      ∀ x ∈ row ⟨.memory files aliases suffix delay, extension, disk⟩ loads s, ∀ l ∈ x.2,
      ∀ y ∈ source? ⟨.memory files aliases suffix delay, extension, disk⟩ loads s,
        order.idxOf y.1 < order.idxOf l.text) (a : Text) :
    Acyclic ⟨.memory files aliases suffix delay, extension, disk⟩ loads a := by
  have hup : ∀ b c, Edge ⟨.memory files aliases suffix delay, extension, disk⟩ loads b c →
      order.idxOf b < order.idxOf c := by
    intro b c hedge
    obtain ⟨s, source, j, k, hsource, hoccurs⟩ := hedge.exists_occursAs
    have hrow := List.mem_of_getElem? (occursAs_iff.mp hoccurs)
    exact h s (mem_sites_of_source? hsource) _ hrow _ rfl _ hsource
  exact acyclic_of_rank hup a

end Memory

/-! ## The stations of a tree that has grown -/

section Grown

variable {ls : List Lexeme} {is : List Import} {p : Pieces} {s : Site} {j : Nat}

/-- The stations of a tree are directives. -/
theorem Grown.station (h : Grown lib ls is p) (his : lib.Remain loads s j is)
    {x : (Site × Nat) × Station} (hx : x ∈ p.stations s j) :
    ∃ i, lib.HasDirective loads x.1.1 x.1.2 i ∧ (∀ k, x.2 = .hole k → i.key = k) ∧
      ∀ l, x.2 = .filled l → lib.find i.key.base i.file = .ok l := by
  induction h generalizing s j with
  | nil => cases hx
  | plain _ ih => exact ih his hx
  | hole _ _ ih =>
    rcases List.mem_cons.mp hx with rfl | hx
    · exact ⟨_, his.head, fun k hk => Station.hole.inj hk, nofun⟩
    · exact ih his.tail hx
  | cleared _ ih =>
    rcases List.mem_cons.mp hx with rfl | hx
    · exact ⟨_, his.head, nofun, nofun⟩
    · exact ih his.tail hx
  | filled hfind hbase hfetch himports _ _ ihinner ih =>
    rw [Pieces.stations, List.mem_cons, List.mem_append] at hx
    rcases hx with rfl | hx | hx
    · exact ⟨_, his.head, nofun, fun l hl => Station.filled.inj hl ▸ hfind⟩
    · exact ihinner (remain_location hfetch himports hbase) hx
    · exact ih his.tail hx

/-- The sites of a tree hang together. -/
theorem Grown.chain (h : Grown lib ls is p) (his : lib.Remain loads s j is)
    {x : (Site × Nat) × Station} (hx : x ∈ p.stations s j) :
    Relation.ReflTransGen (fun a b => lib.Link loads a b ∧ ∃ l ∈ p.places, b = .location l)
      s x.1.1 := by
  induction h generalizing s j with
  | nil => cases hx
  | plain _ ih => exact ih his hx
  | hole _ _ ih | cleared _ ih =>
    rcases List.mem_cons.mp hx with rfl | hx
    · exact .refl
    · exact ih his.tail hx
  | @filled _ _ _ _ i l _ _ _ inner p hfind hbase hfetch himports _ _ ihinner ih =>
    have hplaces : (Pieces.filled l inner p).places = l :: (inner.places ++ p.places) := rfl
    rw [Pieces.stations, List.mem_cons, List.mem_append] at hx
    rcases hx with rfl | hx | hx
    · exact .refl
    · have hlink : lib.Link loads s (.location l) := ⟨j, l, (his.head.occursAs hfind).occurs, rfl⟩
      refine .head ⟨hlink, l, List.mem_cons_self, rfl⟩ ?_
      refine Relation.ReflTransGen.mono ?_ _ _ (ihinner (remain_location hfetch himports hbase) hx)
      rintro a b ⟨hab, l', hl', rfl⟩
      exact ⟨hab, l', by simp [hplaces, hl'], rfl⟩
    · refine Relation.ReflTransGen.mono ?_ _ _ (ih his.tail hx)
      rintro a b ⟨hab, l', hl', rfl⟩
      exact ⟨hab, l', by simp [hplaces, hl'], rfl⟩

/-- A tree has all directives of its own site. -/
theorem Grown.exists_station (h : Grown lib ls is p) {m : Nat} (hm : m < is.length) (s : Site)
    (j : Nat) : ∃ st, ((s, j + m), st) ∈ p.stations s j := by
  induction h generalizing j m with
  | nil => cases hm
  | plain _ ih => exact ih hm j
  | hole _ _ ih | cleared _ ih | filled _ _ _ _ _ _ _ ih =>
    cases m with
    | zero => exact ⟨_, List.mem_cons_self⟩
    | succ m =>
      obtain ⟨st, hst⟩ := ih (Nat.lt_of_succ_lt_succ hm) (j + 1)
      refine ⟨st, ?_⟩
      rw [Nat.add_right_comm] at hst
      simp only [Pieces.stations, List.mem_cons, List.mem_append]
      tauto

/-- A tree has all directives of the locations in it. -/
theorem Grown.exists_station_of_mem (h : Grown lib ls is p) {l l' : Location} (hl : l ∈ p.places)
    {m : Nat} (hm : lib.Occurs loads (.location l) m l') (s : Site) (j : Nat) :
    ∃ st, ((.location l, m), st) ∈ p.stations s j := by
  induction h generalizing s j with
  | nil => cases hl
  | plain _ ih => exact ih hl s j
  | hole _ _ ih | cleared _ ih =>
    obtain ⟨st, hst⟩ := ih hl s (j + 1)
    exact ⟨st, List.mem_cons_of_mem _ hst⟩
  | @filled _ _ raw _ i l₀ _ _ is' inner p hfind hbase hfetch himports hinner _ ihinner ih =>
    rw [Pieces.places, List.mem_cons, List.mem_append] at hl
    rcases hl with rfl | hl | hl
    · have hlt : m < is'.length := hm.lt_length (by rw [source?, hfetch]) himports
      obtain ⟨st, hst⟩ := hinner.exists_station hlt (.location l) 0
      rw [Nat.zero_add] at hst
      exact ⟨st, List.mem_cons_of_mem _ (List.mem_append_left _ hst)⟩
    · obtain ⟨st, hst⟩ := ihinner hl (.location l₀) 0
      exact ⟨st, List.mem_cons_of_mem _ (List.mem_append_left _ hst)⟩
    · obtain ⟨st, hst⟩ := ih hl s (j + 1)
      exact ⟨st, List.mem_cons_of_mem _ (List.mem_append_right _ hst)⟩

end Grown

end Library

end StyleBatch
