import StyleBatch.Proofs.Disk
import StyleBatch.Proofs.Lookups

/-!
# Files at their places

The segments of a path say where it leads, whether it can be walked there or not.  What stands at
that place is followed through the changes of a disk: directories that are made leave every file as
it is, and a write that succeeds leaves its bytes there.  A file that is opened for writing is empty,
and bytes that are written into an empty file are all that it holds.

* `Disk.segments_of_place`: a path that can be walked leads to its target.
* `Disk.read_eq_ok_iff`: what is read stands there.
* `Disk.create_eq_ok_iff`, `Disk.read_overwrite`: opening a file and writing into it.
* `Disk.Spares`: a change that leaves directories and one file as they are; `spares_makePath`.
* `Disk.Holds`: a file that still has its bytes, or those that were written; `Holds.spares`,
  `Holds.write`, `Holds.overwrite`.
-/

namespace StyleBatch.Disk

variable {disk disk' : Disk} {path : Text} {segments : List Text} {bytes : Bytes}

/-- The bytes of the file at a place. -/
def fileAt? (disk : Disk) (segments : List Text) : Option Bytes :=
  match find? disk segments with
  | some (.file bytes) => some bytes
  | _ => none

/-- Where the segments of a path lead. -/
def target (disk : Disk) (path : Text) : List Text :=
  ((Text.splitAtEach '/' path).filter fun s => !s.isEmpty).foldl toward
    (if Path.isAbsolute path then [] else disk.workingDirectory)

/-! ## Targets -/

theorem eq_foldl_of_walk {here found rest : List Text} (h : walk disk here rest = .ok found) :
    found = rest.foldl toward here := by
  induction rest generalizing here with
  | nil => exact (Except.ok.inj h).symm
  | cons s rest ih =>
    cases rest with
    | nil => exact (walk_singleton_iff.mp h).2.symm
    | cons t rest => exact ih ((walk_cons_iff (List.cons_ne_nil t rest)).mp h).2.2

/-- A path that can be walked leads to its target. -/
theorem segments_of_place {found : Place} (h : place disk path = .ok found) :
    found.segments = target disk path :=
  eq_foldl_of_walk (place_eq_ok_iff.mp h).2.2.2.1

theorem target_congr (h : disk'.workingDirectory = disk.workingDirectory) (path : Text) :
    target disk' path = target disk path := by
  rw [target, target, h]

/-- What is read stands at the place. -/
theorem read_of_fileAt? (hplace : place disk path = .ok ⟨segments, false⟩)
    (hfile : fileAt? disk segments = some bytes) : read disk path = .ok bytes := by
  rw [fileAt?] at hfile
  split at hfile
  · rename_i hfind
    cases hfile
    simp [read, lookup, hplace, hfind]
  · cases hfile

/-- What is read stands where the path leads. -/
theorem read_eq_ok_iff : read disk path = .ok bytes ↔
    place disk path = .ok ⟨target disk path, false⟩ ∧
      fileAt? disk (target disk path) = some bytes := by
  refine ⟨fun h => ?_, fun h => read_of_fileAt? h.1 h.2⟩
  rw [read, lookup] at h
  cases hplace : place disk path with
  | error fault =>
    rw [hplace] at h
    cases h
  | ok found =>
    obtain ⟨segments, slash⟩ := found
    obtain rfl : segments = target disk path := segments_of_place hplace
    rw [hplace] at h
    dsimp only at h
    cases hfind : find? disk (target disk path) with
    | none =>
      rw [hfind] at h
      cases h
    | some entry =>
      rw [hfind] at h
      cases entry with
      | directory => cases h
      | file bytes' =>
        cases slash with
        | true => cases h
        | false =>
          cases h
          exact ⟨rfl, by rw [fileAt?, hfind]⟩

theorem target_ne_of_leadsToNull {found : Place} (hplace : place disk path = .ok found)
    (hnull : leadsToNull disk path = false) : target disk path ≠ nullDevice := by
  rw [leadsToNull, hplace] at hnull
  rw [← segments_of_place hplace]
  simpa using hnull

/-! ## Opening a file and writing into it -/

/-- A file that is opened is given no bytes, and its place is told. -/
theorem create_eq_ok_iff {file : List Text} : create disk path = .ok (file, disk') ↔
    file = target disk path ∧ write disk path [] = .ok disk' := by
  rw [create]
  cases hplace : place disk path with
  | error fault => simp [write, hplace]
  | ok found =>
    rw [← segments_of_place hplace]
    dsimp only
    cases write disk path [] <;> simp [Except.map, eq_comm]

/-- Writing into a file leaves every directory as it is. -/
theorem keepsDirectories_overwrite (disk : Disk) (file : List Text) (bytes : Bytes) :
    KeepsDirectories disk (overwrite disk file bytes) := by
  rw [overwrite]
  split
  · rename_i hfind
    split
    · exact ⟨rfl, fun _ h => h⟩
    · exact keepsDirectories_set_file (by simp [hfind]) _
  · exact ⟨rfl, fun _ h => h⟩

/-- Bytes that are written into an empty file are all that it holds. -/
theorem fileAt?_overwrite (hempty : fileAt? disk segments = some []) (hnull : segments ≠ nullDevice)
    (bytes : Bytes) : fileAt? (overwrite disk segments bytes) segments = some bytes := by
  rw [fileAt?] at hempty
  split at hempty
  · rename_i old hfind
    obtain rfl : old = [] := Option.some.inj hempty
    rw [overwrite, hfind]
    dsimp only
    rw [if_neg hnull, fileAt?, find?_set_file (by simp [hfind]) hnull, List.drop_nil,
      List.append_nil]
  · cases hempty

theorem read_overwrite (hempty : read disk path = .ok []) (hnull : leadsToNull disk path = false)
    (bytes : Bytes) : read (overwrite disk (target disk path) bytes) path = .ok bytes := by
  obtain ⟨hplace, hfile⟩ := read_eq_ok_iff.mp hempty
  exact read_of_fileAt? ((keepsDirectories_overwrite disk _ bytes).place hplace)
    (fileAt?_overwrite hfile (target_ne_of_leadsToNull hplace hnull) bytes)

/-! ## Changes that leave a file as it is -/

/-- All directories stay, and what the path leads to is the same file as before, or still none. -/
structure Spares (path : Text) (disk disk' : Disk) : Prop where
  keeps : KeepsDirectories disk disk'
  file : fileAt? disk' (target disk path) = fileAt? disk (target disk path)

theorem Spares.refl (path : Text) (disk : Disk) : Spares path disk disk :=
  ⟨⟨rfl, fun _ h => h⟩, rfl⟩

theorem fileAt?_makeDirectory {directory : Text} (h : makeDirectory disk directory = .ok disk') :
    fileAt? disk' segments = fileAt? disk segments := by
  rw [makeDirectory] at h
  split at h
  · cases h
  · rename_i place _
    split at h
    · cases h
    · rename_i hnone
      cases h
      by_cases hsegments : place.segments = segments
      · -- there was nothing, and a directory has no bytes
        subst hsegments
        have hnot : place.segments ≠ nullDevice ∧
            ¬(place.segments.length ≤ 3 ∧ systemDirectories.contains place.segments) := by
          refine ⟨fun heq => ?_, fun hsystem => ?_⟩
          · rw [find?, if_pos heq] at hnone
            cases hnone
          · rw [find?] at hnone
            split at hnone
            · cases hnone
            · cases hnone
        simp only [fileAt?, find?, if_neg hnot.1, if_neg hnot.2, Table.get?_set_self] at hnone ⊢
        rw [hnone]
      · simp only [fileAt?, find?, Table.get?_set_of_ne hsegments]

theorem fileAt?_makePathFrom {fuel : Nat} {directory : Text}
    (h : makePathFrom fuel disk directory = .ok disk') :
    fileAt? disk' segments = fileAt? disk segments := by
  induction fuel generalizing disk disk' directory with
  | zero => cases h
  | succ fuel ih =>
    rw [makePathFrom] at h
    split at h
    · cases h
      rfl
    · split at h
      · rename_i hmade
        cases h
        exact fileAt?_makeDirectory hmade
      · split at h
        · cases h
        · split at h
          · cases h
          · rename_i habove
            have hfile := ih habove
            split at h
            · rename_i hmade
              cases h
              rw [fileAt?_makeDirectory hmade, hfile]
            · split at h
              · cases h
                exact hfile
              · cases h
      · split at h
        · cases h
          rfl
        · cases h

/-- Making directories spares every file. -/
theorem spares_makePath {directory : Text} (h : makePath disk directory = .ok disk') :
    Spares path disk disk' :=
  ⟨⟨(grows_makePath h).1, fun segments => (grows_makePath h).2 segments _⟩, fileAt?_makePathFrom h⟩

/-! ## What a file holds -/

/-- Compared with an earlier disk, the file that a path leads to has got the bytes, if any, and can
be read there. -/
structure Holds (path : Text) (before : Disk) (written : Option Bytes) (disk : Disk) : Prop where
  workingDirectory : disk.workingDirectory = before.workingDirectory
  file : fileAt? disk (target before path) =
    written.or (fileAt? before (target before path))
  place : written.isSome → Disk.place disk path = .ok ⟨target before path, false⟩

namespace Holds

variable {before : Disk} {written : Option Bytes}

theorem start (path : Text) (disk : Disk) : Holds path disk none disk :=
  ⟨rfl, rfl, fun h => by cases h⟩

theorem target_eq (h : Holds path before written disk) : target disk path = target before path :=
  target_congr h.workingDirectory path

theorem spares (h : Holds path before written disk) (hspares : Spares path disk disk') :
    Holds path before written disk' where
  workingDirectory := hspares.keeps.1.trans h.workingDirectory
  file := by
    have hfile := hspares.file
    rw [h.target_eq] at hfile
    exact hfile.trans h.file
  place hwritten := hspares.keeps.place (h.place hwritten)

/-- A write that succeeds replaces what the file holds. -/
theorem write (h : Holds path before written disk) (hnull : target before path ≠ nullDevice)
    (hwrite : Disk.write disk path bytes = .ok disk') : Holds path before (some bytes) disk' := by
  rw [Disk.write] at hwrite
  split at hwrite
  · cases hwrite
  · rename_i place hplace
    obtain ⟨segments, slash⟩ := place
    obtain rfl : segments = target before path := (segments_of_place hplace).trans h.target_eq
    split at hwrite
    · cases hwrite
    · rename_i hslash
      obtain rfl : slash = false := Bool.eq_false_iff.mpr hslash
      split at hwrite
      · cases hwrite
      · rename_i hfind
        have hnot : find? disk (target before path) ≠ some .directory := hfind
        cases hwrite
        refine ⟨h.workingDirectory, ?_, fun _ => ?_⟩
        · rw [fileAt?, find?_set_file hnot hnull bytes]
          rfl
        · exact (keepsDirectories_set_file hnot bytes).place hplace

/-- What is written into a file that was emptied is what it holds. -/
theorem overwrite (h : Holds path before (some []) disk) (hnull : target before path ≠ nullDevice)
    (bytes : Bytes) :
    Holds path before (some bytes) (Disk.overwrite disk (target before path) bytes) := by
  have hkeeps := keepsDirectories_overwrite disk (target before path) bytes
  exact ⟨hkeeps.1.trans h.workingDirectory, fileAt?_overwrite h.file hnull bytes,
    fun _ => hkeeps.place (h.place rfl)⟩

/-- What was written is read. -/
theorem read (h : Holds path before (some bytes) disk) : Disk.read disk path = .ok bytes :=
  read_of_fileAt? (h.place rfl) (h.file.trans rfl)

end Holds

end StyleBatch.Disk
