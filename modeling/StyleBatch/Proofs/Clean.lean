import StyleBatch.Proofs.Expansion

/-!
# Libraries without marks and bars

Where no address, no source and no location has the mark of placeholders or the bar of keys, the
only placeholders in a text are those that were put there.

* `Specifier.mem_file`: which characters the file of an import has.
* `Library.Clean.neat_load`, `Library.Clean.neat_location`: a staged source is neat.
-/

namespace StyleBatch

namespace Specifier

theorem mem_of_mem_trim {t : Text} {c : Char} (h : c ∈ Text.trim t) : c ∈ t := by
  rw [Text.trim, Text.dropEnd, List.mem_reverse] at h
  have hc := (List.dropWhile_sublist _).subset h
  rw [List.mem_reverse] at hc
  exact (List.dropWhile_sublist _).subset hc

/-- A partial has the characters of the specifier and of the extension, and a few of its own. -/
theorem mem_partialFile {extension specifier : Text} {c : Char}
    (h : c ∈ partialFile extension specifier) :
    c ∈ specifier ∨ c ∈ extension ∨ c ∈ ['/', '_', '.'] := by
  have hmarks : "/_".toList = ['/', '_'] ∧ "_".toList = ['_'] ∧ ".".toList = ['.'] :=
    ⟨rfl, rfl, rfl⟩
  rw [partialFile] at h
  split at h
  · exact Or.inl h
  · split at h
    · rename_i directory name hcut
      rw [Text.eq_of_cutAtLast? hcut]
      simp only [hmarks, List.mem_append, List.mem_cons] at h ⊢
      tauto
    · simp only [hmarks, List.mem_append, List.mem_cons] at h ⊢
      tauto

theorem mem_file {extension base specifier : Text} {c : Char}
    (h : c ∈ file extension base specifier) :
    c ∈ specifier ∨ c ∈ extension ∨ c ∈ ['/', '_', '.'] := by
  simp only [file] at h
  split at h
  · exact mem_partialFile h
  · rcases List.mem_append.mp h with h | h
    · have hmarks : "./".toList = ['.', '/'] := rfl
      simp only [hmarks, List.mem_cons] at h ⊢
      tauto
    · exact mem_partialFile h

end Specifier

namespace Library

/-- Nothing that loads reach has the mark of placeholders or the bar of keys. -/
structure Clean (lib : Library) (loads : List Load) : Prop where
  load : ∀ load ∈ loads, Text.Clean load.address ∧ Text.Clean load.text
  location : ∀ l, lib.Reachable loads l → Text.Clean l.text
  content : ∀ l raw, lib.Reachable loads l → lib.fetch l = .ok raw → Text.Clean raw
  extension : '\x00' ∉ lib.extension

variable {lib : Library} {loads : List Load}

theorem Clean.barless (h : lib.Clean loads) : lib.Barless loads where
  load load hload := (h.load load hload).1.2
  location l hl := (h.location l hl).2

theorem Clean.of_append {more : List Load} (h : lib.Clean (loads ++ more)) : lib.Clean loads where
  load load hload := h.load load (List.mem_append_left more hload)
  location l hl := h.location l (hl.append more)
  content l raw hl := h.content l raw (hl.append more)
  extension := h.extension

/-- A key has the characters of the address, of the source and of the extension. -/
theorem neat_of_mem_imports {address source : Text} (haddress : '\x00' ∉ address)
    (hsource : '\x00' ∉ source) (hextension : '\x00' ∉ lib.extension) {is : List Import}
    (himports : lib.imports address source = .ok is) {i : Import} (hi : i ∈ is) :
    (Token.hole i.key).Neat := by
  refine ⟨?_, separator_mem_of_mem_imports himports hi⟩
  rw [imports, Resolution.imports, mapM_eq_ok_iff] at himports
  obtain ⟨d, hd, hdi⟩ := exists_left_of_forall₂ himports hi
  dsimp only at hdi
  split at hdi
  · cases hdi
  · cases hdi
    intro hmem
    rcases List.mem_append.mp hmem with hmem | hmem
    · rcases Address.mem_base hmem with hmem | hmem
      · exact haddress hmem
      · exact absurd hmem (by decide)
    · rcases List.mem_cons.mp hmem with hmem | hmem
      · exact absurd hmem (by decide)
      · rcases Specifier.mem_file hmem with hmem | hmem | hmem
        · exact hsource (Directive.mem_of_mem_specifier hd (Specifier.mem_of_mem_trim hmem))
        · exact hextension hmem
        · exact absurd hmem (by decide)

/-- A clean source is staged neatly. -/
theorem neat_seed_parts {address source : Text} (haddress : Text.Clean address)
    (hsource : Text.Clean source) (hextension : '\x00' ∉ lib.extension) {is : List Import}
    (himports : lib.imports address source = .ok is) :
    (seed (Directive.parts source) is).Neat := by
  refine neat_seed (fun t ht => ?_) fun i hi =>
    neat_of_mem_imports haddress.1 hsource.1 hextension himports hi
  constructor
  · exact fun hmem => hsource.1 (Directive.mem_of_mem_plain ht hmem)
  · exact fun hmem => hsource.2 (Directive.mem_of_mem_plain ht hmem)

theorem Clean.neat_load (h : lib.Clean loads) {load : Load} (hload : load ∈ loads)
    {is : List Import} (himports : lib.imports load.address load.text = .ok is) :
    (seed (Directive.parts load.text) is).Neat :=
  neat_seed_parts (h.load load hload).1 (h.load load hload).2 h.extension himports

theorem Clean.neat_location (h : lib.Clean loads) {l : Location} (hl : lib.Reachable loads l)
    {raw : Text} (hfetch : lib.fetch l = .ok raw) {is : List Import}
    (himports : lib.imports l.text raw = .ok is) : (seed (Directive.parts raw) is).Neat :=
  neat_seed_parts (h.location l hl) (h.content l raw hl hfetch) h.extension himports

/-- A library in memory is clean if its files and the loads are. -/
theorem clean_memory {files aliases : Table Text Text} {suffix : Option Text} {delay : Nat}
    {extension : Text} {disk : Disk}
    (hloads : ∀ load ∈ loads, Text.Clean load.address ∧ Text.Clean load.text)
    (hnames : ∀ name ∈ Table.keys files,
      Text.Clean (Location.ofAddress (name ++ suffix.getD [])).text)
    (htexts : ∀ file ∈ files, Text.Clean file.2) (hextension : '\x00' ∉ extension) :
    Clean ⟨.memory files aliases suffix delay, extension, disk⟩ loads where
  load := hloads
  location l hl := by
    obtain ⟨name, hname, rfl⟩ := mem_files_of_reachable hl
    exact hnames name hname
  content l raw _ hfetch := htexts _ (mem_files_of_fetch hfetch)
  extension := hextension

end Library

end StyleBatch
