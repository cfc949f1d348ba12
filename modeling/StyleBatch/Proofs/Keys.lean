import StyleBatch.Proofs.Resolution.Sound

/-!
# What a key tells about its import

A key puts a bar between the base path and the file of an import, and whoever starts the search
for the key cuts it at the first bar to get the base path back.  A bar may also stand in a
directory or in a specifier.

* `Key.base_ofParts_iff`: the base path comes back exactly if there is no bar in it.
* `Key.ofParts_eq_iff`: two imports have the same key if base path and file are the same, and
  also where the key of the one is cut at another bar than the key of the other (`Key.Overlap`).
* `Resolution.keys_divided`: what this means for the imports of a library, and for the searches
  of a resolution.
-/

namespace StyleBatch

namespace Text

/-- Before the cut there is none of the characters that are cut at. -/
theorem not_mem_of_cutAt? {c : Char} {t before after : Text}
    (h : cutAt? c t = some (before, after)) : c ∉ before := by
  induction t generalizing before with
  | nil => cases h
  | cons d t ih =>
    rw [cutAt?] at h
    split at h
    · cases h
      exact List.not_mem_nil
    · rename_i hd
      obtain ⟨⟨before', after'⟩, hrest, hpieces⟩ := Option.map_eq_some_iff.mp h
      cases hpieces
      simp [Ne.symm hd, ih hrest]

end Text

namespace Key

theorem separator_not_mem_base (k : Key) : separator ∉ k.base := by
  rw [base]
  split
  · rename_i hcut
    exact Text.not_mem_of_cutAt? hcut
  · exact List.not_mem_nil

/-- The base path comes back exactly if there is no bar in it. -/
theorem base_ofParts_iff (base file : Text) :
    (ofParts base file).base = base ↔ separator ∉ base := by
  constructor
  · intro h
    rw [← h]
    exact separator_not_mem_base _
  · exact fun h => Library.base_ofParts h file

/-- A base path goes on behind the bar of another key, with a bar in that key's file. -/
def Overlap (base file base' file' : Text) : Prop :=
  ∃ middle, base' = base ++ separator :: middle ∧ file = middle ++ separator :: file'

/-- Where a base path is the start of another one, the keys are the same if nothing is left of
the longer one or if the rest begins with the bar of the first key. -/
theorem overlap_of_append {base file base' file' : Text} :
    (∃ rest, base' = base ++ rest ∧ separator :: file = rest ++ separator :: file') ↔
      base = base' ∧ file = file' ∨ Overlap base file base' file' := by
  constructor
  · rintro ⟨rest, rfl, hrest⟩
    cases rest with
    | nil => exact Or.inl ⟨(List.append_nil _).symm, (List.cons.inj hrest).2⟩
    | cons c middle =>
      obtain ⟨rfl, hfile⟩ := List.cons.inj hrest
      exact Or.inr ⟨middle, rfl, hfile⟩
  · rintro (⟨rfl, rfl⟩ | ⟨middle, hbase, rfl⟩)
    · exact ⟨[], (List.append_nil _).symm, rfl⟩
    · exact ⟨separator :: middle, hbase, rfl⟩

/-- Two imports have the same key if base path and file are the same, or if one base path goes
on in the file of the other import. -/
theorem ofParts_eq_iff {base file base' file' : Text} :
    ofParts base file = ofParts base' file' ↔
      base = base' ∧ file = file' ∨ Overlap base file base' file' ∨
        Overlap base' file' base file := by
  rw [ofParts, ofParts, Key.mk.injEq, List.append_eq_append_iff, overlap_of_append,
    overlap_of_append, eq_comm (a := base'), eq_comm (a := file')]
  tauto

end Key

namespace Library

/-- The import that a specifier means in a source at an address. -/
def toImport (lib : Library) (address specifier : Text) : Import :=
  Specifier.toImport lib.extension (lib.base address) specifier

theorem exists_of_mem_imports {lib : Library} {address source : Text} {is : List Import}
    (h : lib.imports address source = .ok is) {i : Import} (hi : i ∈ is) :
    ∃ d ∈ Directive.scan source, i = lib.toImport address (Text.trim d.specifier) := by
  rw [imports, Resolution.imports, mapM_eq_ok_iff] at h
  obtain ⟨d, hd, hdi⟩ := exists_left_of_forall₂ h hi
  dsimp only at hdi
  split at hdi
  · cases hdi
  · cases hdi
    exact ⟨d, hd, rfl⟩

end Library

namespace Resolution

/-- An import's base path comes back from its key exactly if there is no bar in it, and two
imports with the same key have the same base path and file unless one base path goes on in the
file of the other.  In a resolution every search is for an import of some source, and what it
finds is what that import's file leads to under the base path that the key gives. -/
theorem keys_divided (lib : Library) :
    (∀ address specifier, (lib.toImport address specifier).key.base = lib.base address ↔
      Key.separator ∉ lib.base address) ∧
    (∀ address specifier address' specifier',
      (lib.toImport address specifier).key = (lib.toImport address' specifier').key ↔
        lib.base address = lib.base address' ∧
          (lib.toImport address specifier).file = (lib.toImport address' specifier').file ∨
        Key.Overlap (lib.base address) (lib.toImport address specifier).file
          (lib.base address') (lib.toImport address' specifier').file ∨
        Key.Overlap (lib.base address') (lib.toImport address' specifier').file
          (lib.base address) (lib.toImport address specifier).file) ∧
    ∀ loads r k t, Reached lib loads r → r.key? k = some t →
      t.phase.Sound lib r k t.file t.ancestry ∧
      ∃ address source, Origin lib loads r t.load t.ancestry address source ∧
        (∃ d ∈ Directive.scan source, ⟨k, t.file⟩ = lib.toImport address (Text.trim d.specifier)) ∧
        (k.base = lib.base address ↔ Key.separator ∉ lib.base address) := by
  have hrecovered : ∀ address specifier,
      (lib.toImport address specifier).key.base = lib.base address ↔
        Key.separator ∉ lib.base address := fun _ _ => Key.base_ofParts_iff _ _
  refine ⟨hrecovered, fun _ _ _ _ => Key.ofParts_eq_iff, fun loads r k t hr hk => ?_⟩
  obtain ⟨⟨-, address, source, is, horigin, his, hmem⟩, -, hphase⟩ := hr.sound.keys k t hk
  obtain ⟨d, hd, himport⟩ := Library.exists_of_mem_imports his hmem
  refine ⟨hphase, address, source, horigin, ⟨d, hd, himport⟩, ?_⟩
  have hkey : k = (lib.toImport address (Text.trim d.specifier)).key := congrArg Import.key himport
  rw [hkey]
  exact hrecovered address _

/-- The search of the small run once it has found its file. -/
def smallSearch : KeyTask :=
  ⟨"./_a.scss", 0, ["s/x"], .reserved ⟨"s/_a.scss"⟩ true⟩

theorem keys_divided_small :
    smallSearch.phase.Sound smallLibrary (play smallLibrary smallLoads 4) ⟨"s/|./_a.scss"⟩
        "./_a.scss" ["s/x"] ∧
      ∃ address source,
        Origin smallLibrary smallLoads (play smallLibrary smallLoads 4) 0 ["s/x"] address source ∧
        (∃ d ∈ Directive.scan source, ⟨⟨"s/|./_a.scss"⟩, "./_a.scss"⟩ =
          smallLibrary.toImport address (Text.trim d.specifier)) ∧
        (Key.base ⟨"s/|./_a.scss"⟩ = smallLibrary.base address ↔
          Key.separator ∉ smallLibrary.base address) := by
  have hsearch : (play smallLibrary smallLoads 4).key? ⟨"s/|./_a.scss"⟩ = some smallSearch := by
    decide +kernel
  exact (keys_divided smallLibrary).2.2 _ _ _ _ (reached_play ..) hsearch

/-- Two files, imported from two directories under the same key. -/
def overlappingLibrary : Library where
  loader := .memory [("a/b/|./_c.scss", "one"), ("a/|./b/_c.scss", "two")] [] none 0
  extension := "scss"
  disk := ⟨[], []⟩

def overlappingLoads : List Load :=
  [⟨"a/x.scss", "@import \"b/|./c\";", []⟩, ⟨"a/|./b/y.scss", "@import \"c\";", []⟩]

/-- With a bar in a base path and in a specifier two imports of different files have the same
key, which gives back the base path of only one of them: both loads succeed, and the text that
the second one imports is missing. -/
theorem keys_overlap :
    (overlappingLibrary.toImport "a/x.scss" "b/|./c").key =
        (overlappingLibrary.toImport "a/|./b/y.scss" "c").key ∧
      overlappingLibrary.base "a/x.scss" ≠ overlappingLibrary.base "a/|./b/y.scss" ∧
      (overlappingLibrary.toImport "a/x.scss" "b/|./c").file ≠
        (overlappingLibrary.toImport "a/|./b/y.scss" "c").file ∧
      (overlappingLibrary.toImport "a/|./b/y.scss" "c").key.base ≠
        overlappingLibrary.base "a/|./b/y.scss" ∧
      ((play overlappingLibrary overlappingLoads 20).loads.map Load.text) =
        [("one;" : Text), (";" : Text)] := by
  decide +kernel

end Resolution

end StyleBatch
