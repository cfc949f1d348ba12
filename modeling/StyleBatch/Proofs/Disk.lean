import StyleBatch.Disk
import StyleBatch.Proofs.Table

/-!
# What a disk keeps

Where a path leads is found by way of directories, so it stays the same as long as directories stay.
Making directories only adds to a disk, and a file that is written is read back.

* `Disk.place_eq`: a disk with the same directories, and more, takes a path to the same place.
* `Disk.Grows`: a disk that was only added to; `grows_makePath`.
* `Disk.read_write`: what was written is read.
-/

namespace StyleBatch.Disk

variable {disk disk' : Disk} {path : Text} {segments : List Text}

/-- Whether a path leads to the null device. -/
def leadsToNull (disk : Disk) (path : Text) : Bool :=
  match place disk path with
  | .ok place => place.segments == nullDevice
  | .error _ => false

/-- Every directory of the disk is one of the other disk, too. -/
def KeepsDirectories (disk disk' : Disk) : Prop :=
  disk'.workingDirectory = disk.workingDirectory ∧
    ∀ segments, find? disk segments = some .directory → find? disk' segments = some .directory

theorem KeepsDirectories.walk (h : KeepsDirectories disk disk') {here : List Text}
    {rest : List Text} (hwalk : walk disk here rest = .ok segments) :
    walk disk' here rest = .ok segments := by
  induction rest generalizing here with
  | nil => exact hwalk
  | cons segment rest ih =>
    rw [Disk.walk.eq_def] at hwalk ⊢
    dsimp only at hwalk ⊢
    split at hwalk
    · cases hwalk
    · rename_i hlong
      rw [if_neg hlong]
      cases rest with
      | nil => exact hwalk
      | cons next rest =>
        dsimp only at hwalk ⊢
        split at hwalk
        · rename_i hthere
          rw [h.2 _ hthere]
          exact ih hwalk
        · cases hwalk
        · cases hwalk

/-- A path leads to the same place. -/
theorem KeepsDirectories.place (h : KeepsDirectories disk disk') {place : Place}
    (hplace : Disk.place disk path = .ok place) : Disk.place disk' path = .ok place := by
  rw [Disk.place] at hplace ⊢
  rw [h.1]
  split at hplace
  · cases hplace
  · rename_i hnul
    rw [if_neg hnul]
    split at hplace
    · cases hplace
    · rename_i hempty
      rw [if_neg hempty]
      split at hplace
      · cases hplace
      · rename_i hlong
        rw [if_neg hlong]
        dsimp only at hplace ⊢
        split at hplace
        · rename_i hwalk
          rw [h.walk hwalk]
          exact hplace
        · cases hplace

/-! ## Adding to a disk -/

/-- The disk was only added to. -/
def Grows (disk disk' : Disk) : Prop :=
  disk'.workingDirectory = disk.workingDirectory ∧
    ∀ segments entry, find? disk segments = some entry → find? disk' segments = some entry

theorem Grows.refl (disk : Disk) : Grows disk disk :=
  ⟨rfl, fun _ _ h => h⟩

theorem Grows.trans {disk'' : Disk} (h : Grows disk disk') (h' : Grows disk' disk'') :
    Grows disk disk'' :=
  ⟨h'.1.trans h.1, fun _ _ hfind => h'.2 _ _ (h.2 _ _ hfind)⟩

/-- What is read stays the same. -/
theorem Grows.read (h : Grows disk disk') {bytes : Bytes} (hread : Disk.read disk path = .ok bytes) :
    Disk.read disk' path = .ok bytes := by
  have hkeeps : KeepsDirectories disk disk' := ⟨h.1, fun _ => h.2 _ _⟩
  rw [Disk.read, lookup] at hread ⊢
  cases hplace : Disk.place disk path with
  | error fault =>
    rw [hplace] at hread
    cases hread
  | ok place =>
    rw [hplace] at hread
    rw [hkeeps.place hplace]
    dsimp only at hread ⊢
    cases hfind : find? disk place.segments with
    | none =>
      rw [hfind] at hread
      cases hread
    | some entry =>
      rw [hfind] at hread
      rw [h.2 _ _ hfind]
      exact hread

theorem grows_makeDirectory (h : makeDirectory disk path = .ok disk') : Grows disk disk' := by
  rw [makeDirectory] at h
  split at h
  · cases h
  · rename_i place _
    split at h
    · cases h
    · rename_i hnone
      cases h
      refine ⟨rfl, fun segments entry hfind => ?_⟩
      have hne : place.segments ≠ segments := by
        rintro rfl
        rw [hnone] at hfind
        cases hfind
      simp only [find?] at hfind ⊢
      rw [Table.get?_set_of_ne hne]
      exact hfind

theorem grows_makePathFrom {fuel : Nat} (h : makePathFrom fuel disk path = .ok disk') :
    Grows disk disk' := by
  induction fuel generalizing disk disk' path with
  | zero => cases h
  | succ fuel ih =>
    rw [makePathFrom] at h
    split at h
    · cases h
      exact .refl disk
    · split at h
      · rename_i hmade
        cases h
        exact grows_makeDirectory hmade
      · split at h
        · cases h
        · split at h
          · cases h
          · rename_i habove
            have hgrows := ih habove
            split at h
            · rename_i hmade
              cases h
              exact hgrows.trans (grows_makeDirectory hmade)
            · split at h
              · cases h
                exact hgrows
              · cases h
      · split at h
        · cases h
          exact .refl disk
        · cases h

/-- Making a directory, and the missing ones above it, only adds to a disk. -/
theorem grows_makePath (h : makePath disk path = .ok disk') : Grows disk disk' :=
  grows_makePathFrom h

/-! ## Writing -/

/-- A file that was given bytes has them. -/
theorem find?_set_file (h : find? disk segments ≠ some .directory) (hnull : segments ≠ nullDevice)
    (bytes : Bytes) :
    find? { disk with entries := Table.set disk.entries segments (.file bytes) } segments =
      some (.file bytes) := by
  rw [find?, if_neg hnull] at h ⊢
  split
  · rename_i hsystem
    rw [if_pos hsystem] at h
    exact absurd rfl h
  · exact Table.get?_set_self ..

/-- A file is no directory, so writing it keeps the directories. -/
theorem keepsDirectories_set_file (h : find? disk segments ≠ some .directory) (bytes : Bytes) :
    KeepsDirectories disk
      { disk with entries := Table.set disk.entries segments (.file bytes) } := by
  refine ⟨rfl, fun segments' hfind => ?_⟩
  have hne : segments ≠ segments' := by
    rintro rfl
    exact h hfind
  simp only [find?] at hfind ⊢
  rw [Table.get?_set_of_ne hne]
  exact hfind

theorem workingDirectory_write {bytes : Bytes} (hwrite : write disk path bytes = .ok disk') :
    disk'.workingDirectory = disk.workingDirectory := by
  rw [write] at hwrite
  repeat' split at hwrite
  all_goals cases hwrite
  all_goals rfl

/-- What was written is read. -/
theorem read_write {bytes : Bytes} (hwrite : write disk path bytes = .ok disk')
    (hnull : leadsToNull disk path = false) : Disk.read disk' path = .ok bytes := by
  rw [leadsToNull] at hnull
  rw [write] at hwrite
  split at hwrite
  · cases hwrite
  · rename_i place hplace
    rw [hplace] at hnull
    have hreal : place.segments ≠ nullDevice := by simpa using hnull
    split at hwrite
    · cases hwrite
    · rename_i hfile
      split at hwrite
      · cases hwrite
      · rename_i hfind
        have hnot : find? disk place.segments ≠ some .directory := hfind
        cases hwrite
        rw [Disk.read, lookup, (keepsDirectories_set_file hnot bytes).place hplace]
        dsimp only
        rw [find?_set_file hnot hreal]
        simp [hfile]

end StyleBatch.Disk
