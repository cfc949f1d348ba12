import Mathlib.Data.List.TakeWhile
import StyleBatch.Listing
import StyleBatch.Proofs.Resolution.Transition

/-!
# The listing and the keys that are staged

The listing of a file takes the specifiers as they are written, staging trims them first.
The base path is the same for both, and so a row has the key of the branch that stands at its
place exactly if there are no blanks around the specifier: what a file gets in addition to its
specifier is dots, slashes, the mark of a partial and the extension, and none of these makes
up for a blank (`Specifier.file_trim_iff`).

* `Specifier.countP_file`: how often characters other than dots and slashes stand in a file.
* `Listing.staged_of_rows`: row by row, what is staged.
* `Listing.keys_listed_iff`: when the listing gives the keys that are staged.
-/

namespace StyleBatch

/-- Two rows of values are equal exactly where all pairs are. -/
theorem map_eq_map_iff_of_forall₂ {α β γ : Type} {f : α → γ} {g : β → γ} {P : α → Prop}
    {xs : List α} {ys : List β} (h : List.Forall₂ (fun x y => f x = g y ↔ P x) xs ys) :
    xs.map f = ys.map g ↔ ∀ x ∈ xs, P x := by
  induction h with
  | nil => simp
  | cons hfirst _ ih => simp [hfirst, ih]

namespace Text

/-- Trimming cuts blanks off both ends and nothing else. -/
theorem exists_trim (t : Text) : ∃ front back : Text, t = front ++ trim t ++ back ∧
    (∀ c ∈ front, Char.isBlank c = true) ∧ ∀ c ∈ back, Char.isBlank c = true := by
  let rest := t.dropWhile Char.isBlank
  refine ⟨t.takeWhile Char.isBlank, (rest.reverse.takeWhile Char.isBlank).reverse, ?_,
    fun c hc => List.mem_takeWhile_imp hc,
    fun c hc => List.mem_takeWhile_imp (List.mem_reverse.mp hc)⟩
  have hrest : trim t ++ (rest.reverse.takeWhile Char.isBlank).reverse = rest := by
    rw [trim, dropEnd, ← List.reverse_append, List.takeWhile_append_dropWhile, List.reverse_reverse]
  rw [List.append_assoc, hrest, List.takeWhile_append_dropWhile]

/-- Characters that are no blanks stand in the trimmed text as often as in the text. -/
theorem countP_trim {p : Char → Bool} (h : ∀ c, Char.isBlank c = true → p c = false) (t : Text) :
    (trim t).countP p = t.countP p := by
  obtain ⟨front, back, ht, hfront, hback⟩ := exists_trim t
  have hnone : ∀ s : Text, (∀ c ∈ s, Char.isBlank c = true) → s.countP p = 0 := fun s hs =>
    List.countP_eq_zero.mpr fun c hc => by simp [h c (hs c hc)]
  conv_rhs => rw [ht]
  rw [List.countP_append, List.countP_append, hnone front hfront, hnone back hback]
  omega

/-- A text that loses no blank is trimmed. -/
theorem trim_eq_of_countP {t : Text} (h : (trim t).countP Char.isBlank = t.countP Char.isBlank) :
    trim t = t := by
  obtain ⟨front, back, ht, hfront, hback⟩ := exists_trim t
  have hcount : t.countP Char.isBlank =
      front.length + (trim t).countP Char.isBlank + back.length := by
    conv_lhs => rw [ht]
    rw [List.countP_append, List.countP_append, List.countP_eq_length.mpr hfront,
      List.countP_eq_length.mpr hback]
  obtain rfl : front = [] := List.eq_nil_of_length_eq_zero (by omega)
  obtain rfl : back = [] := List.eq_nil_of_length_eq_zero (by omega)
  rw [List.nil_append, List.append_nil] at ht
  exact ht.symm

end Text

namespace Specifier

/-- What a partial has that stands for a specifier without extension, apart from the dot. -/
def added (extension specifier : Text) : Text :=
  if hasExtension extension specifier then [] else '_' :: extension

section Count

variable {p : Char → Bool} (hdot : p '.' = false) (hslash : p '/' = false)
include hdot

include hslash in
theorem countP_partialFile (extension specifier : Text) :
    (partialFile extension specifier).countP p =
      specifier.countP p + (added extension specifier).countP p := by
  rw [partialFile, added]
  split
  · simp
  · split
    · rename_i hcut
      rw [Text.eq_of_cutAtLast? hcut]
      simp [hdot, hslash, List.countP_cons]
      omega
    · simp [hdot, List.countP_cons]
      omega

include hslash in
/-- How often characters other than dots and slashes stand in the file of a specifier. -/
theorem countP_file (extension base specifier : Text) :
    (file extension base specifier).countP p =
      specifier.countP p + (added extension specifier).countP p := by
  rw [← countP_partialFile hdot hslash, file]
  split
  · rfl
  · simp [hdot, hslash]

end Count

/-- Only the file of a trimmed specifier is that of the specifier without its blanks. -/
theorem file_trim_iff (extension base specifier : Text) :
    file extension base (Text.trim specifier) = file extension base specifier ↔
      Text.trim specifier = specifier := by
  refine ⟨fun h => ?_, fun h => by rw [h]⟩
  have hcount : ∀ p : Char → Bool, p '.' = false → p '/' = false →
      (Text.trim specifier).countP p + (added extension (Text.trim specifier)).countP p =
        specifier.countP p + (added extension specifier).countP p := by
    intro p hdot hslash
    rw [← countP_file hdot hslash extension base, h, countP_file hdot hslash]
  -- The mark of a partial says whether both specifiers have the extension.
  have hmark := hcount (· == '_') (by decide) (by decide)
  rw [Text.countP_trim (by intro c hc; by_contra hmark; simp_all [Char.isBlank])] at hmark
  have hadded : added extension (Text.trim specifier) = added extension specifier := by
    unfold added at hmark ⊢
    split at hmark <;> split at hmark <;> simp_all
  have hblank := hcount Char.isBlank (by decide) (by decide)
  rw [hadded] at hblank
  exact Text.trim_eq_of_countP (by omega)

end Specifier

namespace Key

theorem ofParts_right_inj {base file file' : Text} :
    ofParts base file = ofParts base file' ↔ file = file' := by
  simp [ofParts]

end Key

namespace Listing

open Resolution

variable {r : Resolution} {root extension path source staged : Text} {load : Nat}
  {ancestry : Ancestry} {branches : List Branch}

/-- A branch is staged for each row, with the trimmed specifier. -/
theorem staged_of_rows (hloader : r.loader = .disk root) (hextension : r.extension = extension)
    (hstage : r.stage (Loader.addressOf root path) source load ancestry = .ok (staged, branches)) :
    List.Forall₂ (fun (row : Row) (b : Branch) =>
        row.key = (Specifier.toImport extension (base root path) row.specifier).key ∧
        b.target = Specifier.toImport extension (base root path) (Text.trim row.specifier))
      (rows root extension path source) branches := by
  let lib : Library := ⟨.disk root, extension, r.world.disk⟩
  have hlibrary : r.loader = lib.loader := hloader
  rw [stage_eq hlibrary hextension] at hstage
  cases himports : lib.imports (Loader.addressOf root path) source with
  | error fault => simp [himports, Except.map] at hstage
  | ok is =>
    obtain ⟨-, rfl⟩ : _ ∧ freshBranches is load ancestry = branches := by
      simpa [himports, Except.map] using hstage
    rw [Library.imports, Resolution.imports, mapM_eq_ok_iff] at himports
    rw [rows, freshBranches, List.forall₂_map_left_iff, List.forall₂_map_right_iff]
    refine himports.imp fun d i hi => ⟨rfl, ?_⟩
    dsimp only at hi
    split at hi
    · cases hi
    · cases hi
      rfl

/-- The listing gives the keys that are staged for the same file exactly if no specifier has
blanks around it. -/
theorem keys_listed_iff (hloader : r.loader = .disk root) (hextension : r.extension = extension)
    (hstage : r.stage (Loader.addressOf root path) source load ancestry = .ok (staged, branches)) :
    List.Forall₂ (fun (row : Row) (b : Branch) =>
        row.key = b.target.key ↔ Text.trim row.specifier = row.specifier)
      (rows root extension path source) branches ∧
    ((rows root extension path source).map Row.key = branches.map (fun b => b.target.key) ↔
      ∀ d ∈ Directive.scan source, Text.trim d.specifier = d.specifier) := by
  have hrows : List.Forall₂ (fun (row : Row) (b : Branch) =>
      row.key = b.target.key ↔ Text.trim row.specifier = row.specifier)
      (rows root extension path source) branches := by
    refine (staged_of_rows hloader hextension hstage).imp fun row b ⟨hkey, htarget⟩ => ?_
    rw [hkey, htarget, Specifier.toImport, Specifier.toImport, Key.ofParts_right_inj, eq_comm,
      Specifier.file_trim_iff]
  refine ⟨hrows, ?_⟩
  rw [map_eq_map_iff_of_forall₂ hrows, rows, List.forall_mem_map]

/-- A resolution of files below `/r`. -/
def listedResolution : Resolution :=
  Resolution.start (.disk "/r") "scss" ⟨[], []⟩

/-- The branch of an import of `a` in `s/x.scss`. -/
def listedBranch : Branch :=
  ⟨⟨⟨"s/|./_a.scss"⟩, "./_a.scss"⟩, 0, [], .fresh⟩

theorem keys_listed_small :
    (rows "/r" "scss" "s/x.scss" "@import \"a\";").map Row.key =
      [listedBranch].map fun b => b.target.key := by
  have hstage : listedResolution.stage (Loader.addressOf "/r" "s/x.scss") "@import \"a\";" 0 [] =
      .ok ("\x00s/|./_a.scss\x00;", [listedBranch]) := by decide +kernel
  exact (keys_listed_iff rfl rfl hstage).2.mpr (by decide +kernel)

/-- A blank before the specifier is in the key that is listed and not in the one that is
staged. -/
theorem padded_listed :
    listedResolution.stage (Loader.addressOf "/r" "s/x.scss") "@import \" a\";" 0 [] =
        .ok ("\x00s/|./_a.scss\x00;", [listedBranch]) ∧
      (rows "/r" "scss" "s/x.scss" "@import \" a\";").map Row.key = [⟨"s/|./_ a.scss"⟩] ∧
      (rows "/r" "scss" "s/x.scss" "@import \" a\";").map Row.key ≠
        [listedBranch].map fun b => b.target.key := by
  decide +kernel

end Listing

end StyleBatch
