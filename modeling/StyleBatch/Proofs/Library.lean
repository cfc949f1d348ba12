import Mathlib.Logic.Relation
import StyleBatch.Proofs.Sequence
import StyleBatch.Proofs.Table
import StyleBatch.Proofs.Text
import StyleBatch.Resolution

/-!
# Libraries and their import graph

What a resolution reads, apart from the loads themselves, stays as it is: the loader, the
extension of partials and the disk.  Such a `Library` says which imports a source has
(`Library.imports`), where a file leads that is imported under a base path
(`Library.find`) and what stands at a location (`Library.fetch`).

* `Library.Leads`, `Library.Imports`: the edges of the import graph, from a source and from
  the file at a location.
* `Library.Reachable`: the locations that loads reach.
* `Library.Plain`: no base path holds a bar; `Library.Barless`: no address does.  Then a key
  gives back the base path and the file it was made from (`Library.base_ofParts`,
  `Library.ofParts_inj`).
-/

namespace StyleBatch

/-- What resolutions read and never change. -/
structure Library where
  loader : Loader
  extension : Text
  disk : Disk

namespace Library

variable (lib : Library)

/-- The base path of the imports of a source at an address. -/
def base (address : Text) : Text :=
  Address.base lib.loader.workingDirectory? address

/-- The imports of a source at an address; a blank specifier is a fault. -/
def imports (address source : Text) : Except Fault (List Import) :=
  Resolution.imports lib.extension (lib.base address) address (Directive.scan source)

/-- Where a file leads that is imported under a base path. -/
def find (base file : Text) : Except Fault Location := do
  let name ← lib.loader.normalize file base
  let address ← lib.loader.locate lib.disk name
  return Location.ofAddress address

/-- The text at a location. -/
def fetch (l : Location) : Outcome :=
  lib.loader.fetch lib.disk l.text

/-- A source at an address has an import that leads to a location. -/
def Leads (address source : Text) (l : Location) : Prop :=
  ∃ is, lib.imports address source = .ok is ∧
    ∃ i ∈ is, lib.find (lib.base address) i.file = .ok l

/-- The file at a location has an import that leads to another one. -/
def Imports (l l' : Location) : Prop :=
  ∃ raw, lib.fetch l = .ok raw ∧ lib.Leads l.text raw l'

/-- The locations that loads reach through imports. -/
inductive Reachable (loads : List Load) : Location → Prop
  | direct {load : Load} {l : Location} :
      load ∈ loads → lib.Leads load.address load.text l → Reachable loads l
  | nested {l l' : Location} : Reachable loads l → lib.Imports l l' → Reachable loads l'

/-- Another disk on which the loader finds the same. -/
def SameOn (disk : Disk) : Prop :=
  (∀ address, lib.loader.fetch disk address = lib.loader.fetch lib.disk address) ∧
    ∀ candidate, lib.loader.probe? disk candidate = lib.loader.probe? lib.disk candidate

theorem sameOn_disk : lib.SameOn lib.disk :=
  ⟨fun _ => rfl, fun _ => rfl⟩

/-- Neither the base paths of loads nor those of reachable locations hold the bar that divides
a key. -/
structure Plain (loads : List Load) : Prop where
  load : ∀ load ∈ loads, Key.separator ∉ lib.base load.address
  location : ∀ l, lib.Reachable loads l → Key.separator ∉ lib.base l.text

/-- Neither the addresses of loads nor reachable locations hold a bar. -/
structure Barless (loads : List Load) : Prop where
  load : ∀ load ∈ loads, Key.separator ∉ load.address
  location : ∀ l, lib.Reachable loads l → Key.separator ∉ l.text

variable {lib}

section Append

variable {loads : List Load}

theorem Reachable.mono {more : List Load} (hmore : ∀ load ∈ loads, load ∈ more) {l : Location}
    (h : lib.Reachable loads l) : lib.Reachable more l := by
  induction h with
  | direct hload hleads => exact .direct (hmore _ hload) hleads
  | nested _ himports ih => exact .nested ih himports

theorem Reachable.append {l : Location} (h : lib.Reachable loads l) (more : List Load) :
    lib.Reachable (loads ++ more) l :=
  h.mono fun _ hload => List.mem_append_left more hload

theorem Plain.of_append {more : List Load} (h : lib.Plain (loads ++ more)) : lib.Plain loads where
  load load hload := h.load load (List.mem_append_left more hload)
  location l hl := h.location l (hl.append more)

end Append

/-! ## Keys of imports -/

theorem key_of_mem_imports {address source : Text} {is : List Import}
    (h : lib.imports address source = .ok is) {i : Import} (hi : i ∈ is) :
    i.key = Key.ofParts (lib.base address) i.file := by
  rw [imports, Resolution.imports, mapM_eq_ok_iff] at h
  obtain ⟨d, -, hd⟩ := exists_left_of_forall₂ h hi
  dsimp only at hd
  split at hd
  · cases hd
  · cases hd
    rfl

/-- A source has as many imports as directives. -/
theorem length_imports {address source : Text} {is : List Import}
    (h : lib.imports address source = .ok is) : is.length = (Directive.scan source).length := by
  rw [imports, Resolution.imports, mapM_eq_ok_iff] at h
  exact h.length_eq.symm

theorem separator_not_mem_base {address : Text} (h : Key.separator ∉ address) :
    Key.separator ∉ lib.base address := by
  intro hmem
  rcases Address.mem_base hmem with hmem | hmem
  · exact h hmem
  · exact absurd hmem (by decide)

theorem Barless.plain {loads : List Load} (h : lib.Barless loads) : lib.Plain loads where
  load load hload := separator_not_mem_base (h.load load hload)
  location l hl := separator_not_mem_base (h.location l hl)

/-- The base path of a key, when no bar is in it. -/
theorem base_ofParts {base : Text} (h : Key.separator ∉ base) (file : Text) :
    (Key.ofParts base file).base = base := by
  rw [Key.base, Key.ofParts, Text.cutAt?_append h]

theorem ofParts_inj {base base' file file' : Text} (h : Key.separator ∉ base)
    (h' : Key.separator ∉ base') (heq : Key.ofParts base file = Key.ofParts base' file') :
    base = base' ∧ file = file' := by
  have hcut := congrArg (fun k => Text.cutAt? Key.separator k.text) heq
  simpa [Key.ofParts, Text.cutAt?_append h, Text.cutAt?_append h'] using hcut

/-! ## Files in memory -/

section Memory

variable {files aliases : Table Text Text} {suffix : Option Text} {delay : Nat}
  {extension : Text} {disk : Disk}

/-- In memory only files are found. -/
theorem exists_of_find_memory {base file : Text} {l : Location}
    (h : find ⟨.memory files aliases suffix delay, extension, disk⟩ base file = .ok l) :
    ∃ name ∈ Table.keys files, l = Location.ofAddress (name ++ suffix.getD []) := by
  simp only [find, Loader.normalize, Loader.locate, Loader.candidates, Loader.probe?,
    List.findSome?_singleton, bind, Except.bind] at h
  by_cases hname : Table.has files ((Table.get? aliases (Path.resolve base file)).getD
      (Path.resolve base file))
  · simp only [hname, if_true, pure, Except.pure, Except.ok.injEq] at h
    exact ⟨_, Table.mem_keys_iff.mpr hname, h.symm⟩
  · simp [hname] at h

theorem mem_files_of_reachable {loads : List Load} {l : Location}
    (h : Reachable ⟨.memory files aliases suffix delay, extension, disk⟩ loads l) :
    ∃ name ∈ Table.keys files, l = Location.ofAddress (name ++ suffix.getD []) := by
  cases h with
  | direct _ hleads =>
    obtain ⟨is, -, i, -, hfind⟩ := hleads
    exact exists_of_find_memory hfind
  | nested _ himports =>
    obtain ⟨raw, -, is, -, i, -, hfind⟩ := himports
    exact exists_of_find_memory hfind

/-- What is fetched from memory is a file. -/
theorem mem_files_of_fetch {l : Location} {raw : Text}
    (h : fetch ⟨.memory files aliases suffix delay, extension, disk⟩ l = .ok raw) :
    (l.text, raw) ∈ files := by
  simp only [fetch, Loader.fetch] at h
  split at h
  · rename_i hget
    cases h
    exact Table.mem_of_get? hget
  · cases h

/-- A library in memory is barless if its files and the loads are. -/
theorem barless_memory {loads : List Load} (hloads : ∀ load ∈ loads, Key.separator ∉ load.address)
    (hfiles : ∀ name ∈ Table.keys files,
      Key.separator ∉ (Location.ofAddress (name ++ suffix.getD [])).text) :
    Barless ⟨.memory files aliases suffix delay, extension, disk⟩ loads where
  load := hloads
  location l hl := by
    obtain ⟨name, hname, rfl⟩ := mem_files_of_reachable hl
    exact hfiles name hname

end Memory

end Library

end StyleBatch
