import StyleBatch.Disk
import StyleBatch.Proofs.Normal

/-!
# Walking and looking up

A walk along segments goes on where its first part ends, if that is a directory
(`Disk.walk_append_iff`).  Along names it leads down, through directories only
(`Disk.eq_of_walk_names`, `Disk.directory_of_prefix`), along `..` it leads up
(`Disk.walk_ups`).  A rooted path is looked up by such a walk from the root directory
(`Disk.lookup_rooted_iff`).
-/

namespace StyleBatch

open StyleBatch.Path (Counts IsName rooted)

/-! ## Walking down and up -/

namespace Disk

variable {disk : Disk} {here found names rest : List Text} {s : Text}

/-- Where a segment leads from a directory. -/
def toward (here : List Text) (s : Text) : List Text :=
  if s = ".." then here.dropLast else if s = "." then here else here ++ [s]

theorem toward_name (here : List Text) (h : IsName s) : toward here s = here ++ [s] := by
  rw [toward, if_neg h.2.2, if_neg h.2.1]

theorem eq_or_prefix_of_toward {above : List Text} (h : above <+: toward here s) :
    above = toward here s ∨ above <+: here := by
  rw [toward] at h ⊢
  split at h
  · exact .inr (h.trans (List.dropLast_prefix here))
  · split at h
    · exact .inr h
    · rename_i hup hdot
      rw [if_neg hup, if_neg hdot]
      exact List.prefix_concat_iff.mp h

theorem walk_singleton_iff :
    walk disk here [s] = .ok found ↔ Text.byteSize s ≤ 255 ∧ toward here s = found := by
  simp only [walk, ← toward.eq_def]
  split
  · rename_i hsize
    simp only [reduceCtorEq, false_iff, not_and]
    omega
  · simp
    omega

theorem walk_cons_iff (hrest : rest ≠ []) :
    walk disk here (s :: rest) = .ok found ↔ Text.byteSize s ≤ 255 ∧
      find? disk (toward here s) = some .directory ∧
        walk disk (toward here s) rest = .ok found := by
  obtain ⟨next, more, rfl⟩ := List.exists_cons_of_ne_nil hrest
  rw [walk.eq_def]
  simp only [← toward.eq_def]
  split
  · rename_i hsize
    simp only [reduceCtorEq, false_iff, not_and]
    omega
  · rename_i hsize
    have hsize : Text.byteSize s ≤ 255 := by omega
    split <;> rename_i hthere <;> simp [hthere, hsize]

/-- A walk goes on at the directory where its first part ends. -/
theorem walk_append_iff {front : List Text} (hhere : find? disk here = some .directory)
    (hrest : rest ≠ []) :
    walk disk here (front ++ rest) = .ok found ↔ ∃ there, walk disk here front = .ok there ∧
      find? disk there = some .directory ∧ walk disk there rest = .ok found := by
  induction front generalizing here with
  | nil => simp [walk, hhere]
  | cons s front ih =>
    rw [List.cons_append, walk_cons_iff (by simp [hrest])]
    cases front with
    | nil =>
      simp only [walk_singleton_iff, List.nil_append]
      constructor
      · rintro ⟨hsize, hthere, hwalk⟩
        exact ⟨_, ⟨hsize, rfl⟩, hthere, hwalk⟩
      · rintro ⟨_, ⟨hsize, rfl⟩, hthere, hwalk⟩
        exact ⟨hsize, hthere, hwalk⟩
    | cons t front =>
      simp only [walk_cons_iff (List.cons_ne_nil t front)]
      constructor
      · rintro ⟨hsize, hthere, hwalk⟩
        obtain ⟨there, hfront, hwalk⟩ := (ih hthere).mp hwalk
        exact ⟨there, ⟨hsize, hthere, hfront⟩, hwalk⟩
      · rintro ⟨there, ⟨hsize, hthere, hfront⟩, hwalk⟩
        exact ⟨hsize, hthere, (ih hthere).mpr ⟨there, hfront, hwalk⟩⟩

/-- Names lead down. -/
theorem eq_of_walk_names (hnames : ∀ s ∈ names, IsName s)
    (h : walk disk here names = .ok found) : found = here ++ names := by
  induction names generalizing here with
  | nil =>
    rw [List.append_nil]
    exact (Except.ok.inj h).symm
  | cons s rest ih =>
    obtain ⟨hs, hrest⟩ := List.forall_mem_cons.mp hnames
    cases rest with
    | nil => rw [← (walk_singleton_iff.mp h).2, toward_name here hs]
    | cons t rest =>
      obtain ⟨-, -, h⟩ := (walk_cons_iff (List.cons_ne_nil t rest)).mp h
      rw [ih hrest h, toward_name here hs, List.append_assoc, List.singleton_append]

/-- From a directory that names lead to, all directories above it are passed. -/
theorem directory_of_prefix (hnames : ∀ s ∈ names, IsName s)
    (hwalk : walk disk [] names = .ok found) (hfound : find? disk found = some .directory)
    {above : List Text} (habove : above <+: names) : find? disk above = some .directory := by
  obtain ⟨rest, rfl⟩ := habove
  have hroot : find? disk [] = some .directory := rfl
  by_cases hrest : rest = []
  · subst hrest
    rw [eq_of_walk_names hnames hwalk, List.nil_append, List.append_nil] at hfound
    exact hfound
  · obtain ⟨there, hfront, hthere, -⟩ := (walk_append_iff hroot hrest).mp hwalk
    rw [eq_of_walk_names (List.forall_mem_append.mp hnames).1 hfront] at hthere
    exact hthere

/-- Each `..` leads one directory up, and from the root directory nowhere. -/
theorem walk_ups (habove : ∀ above, above <+: here → find? disk above = some .directory) (n : Nat) :
    walk disk here (List.replicate n (".." : Text)) = .ok (here.take (here.length - n)) := by
  induction n generalizing here with
  | zero => simp [walk]
  | succ n ih =>
    have hup : toward here (".." : Text) = here.dropLast := rfl
    have hlast := ih fun above h => habove above (h.trans (List.dropLast_prefix here))
    have htake : here.dropLast.take (here.dropLast.length - n) =
        here.take (here.length - (n + 1)) := by
      rw [List.dropLast_eq_take, List.take_take, List.length_take]
      congr 1
      omega
    rw [htake] at hlast
    rw [List.replicate_succ]
    cases n with
    | zero =>
      rw [List.replicate_zero, walk_singleton_iff, hup, List.dropLast_eq_take]
      exact ⟨by decide, rfl⟩
    | succ n =>
      rw [walk_cons_iff (by simp), hup]
      exact ⟨by decide, habove _ (List.dropLast_prefix here), hlast⟩

end Disk

/-! ## Looking up a rooted path -/

namespace Disk

variable {disk : Disk} {segments found : List Text} {entry : Entry}

theorem place_eq_ok_iff {path : Text} {found : Place} :
    place disk path = .ok found ↔ '\x00' ∉ path ∧ path ≠ [] ∧ Text.byteSize path < 4096 ∧
      walk disk (if Path.isAbsolute path then [] else disk.workingDirectory)
        ((Text.splitAtEach '/' path).filter fun s => !s.isEmpty) = .ok found.segments ∧
      found.asDirectory = ((Text.splitAtEach '/' path).getLast? == some []) := by
  obtain ⟨segments, slash⟩ := found
  rw [place]
  by_cases hnul : '\x00' ∈ path
  · simp [hnul]
  · by_cases hempty : path = []
    · simp [hempty]
    · by_cases hsize : Text.byteSize path < 4096
      · rw [if_neg (by simpa using hnul), if_neg (by simpa using hempty), if_neg (by omega)]
        dsimp only
        split
        · rename_i hwalk
          simp only [hwalk, Except.ok.injEq, Place.mk.injEq]
          exact ⟨fun ⟨hsegments, hlast⟩ => ⟨hnul, hempty, hsize, hsegments, hlast.symm⟩,
            fun ⟨_, _, _, hsegments, hlast⟩ => ⟨hsegments, hlast.symm⟩⟩
        · rename_i hwalk
          simp [hwalk]
      · rw [if_neg (by simpa using hnul), if_neg (by simpa using hempty), if_pos (by omega)]
        simp [hsize]

theorem lookup_eq_ok_iff {path : Text} :
    lookup disk path = .ok entry ↔ ∃ found, place disk path = .ok found ∧
      find? disk found.segments = some entry ∧
        (found.asDirectory = true → entry = .directory) := by
  rw [lookup]
  cases hplace : place disk path with
  | error fault => simp
  | ok found =>
    dsimp only
    cases hfound : find? disk found.segments with
    | none => simp [hfound]
    | some there =>
      cases there with
      | directory =>
        simp only [Except.ok.injEq, exists_eq_left', hfound, Option.some.injEq]
        exact ⟨fun h => ⟨h, fun _ => h.symm⟩, And.left⟩
      | file bytes =>
        cases hslash : found.asDirectory with
        | false => simp [hfound, hslash]
        | true =>
          simp only [if_pos, reduceCtorEq, Except.ok.injEq, exists_eq_left', hfound, hslash,
            Option.some.injEq, forall_const, false_iff, not_and]
          rintro rfl
          exact nofun

/-- What a rooted path leads to, its segments lead to from the root directory. -/
theorem lookup_rooted_iff (h : ∀ s ∈ segments, Counts s) :
    lookup disk (rooted segments) = .ok entry ↔ '\x00' ∉ rooted segments ∧
      Text.byteSize (rooted segments) < 4096 ∧
        ∃ found, walk disk [] segments = .ok found ∧ find? disk found = some entry := by
  have habsolute : Path.isAbsolute (rooted segments) = true := by
    simpa using Path.isAbsolute_rooted segments []
  have hempty : rooted segments ≠ [] := by
    intro hnil
    rw [hnil] at habsolute
    cases habsolute
  simp only [lookup_eq_ok_iff, place_eq_ok_iff, habsolute, if_pos, Path.filter_rooted h]
  constructor
  · rintro ⟨found, ⟨hnul, -, hsize, hwalk, -⟩, hfound, -⟩
    exact ⟨hnul, hsize, found.segments, hwalk, hfound⟩
  · rintro ⟨hnul, hsize, found, hwalk, hfound⟩
    refine ⟨⟨found, _⟩, ⟨hnul, hempty, hsize, hwalk, rfl⟩, hfound, fun hlast => ?_⟩
    -- Only the root directory is asked for as a directory.
    obtain rfl := Path.eq_nil_of_getLast?_rooted h (by simpa using hlast)
    obtain rfl : [] = found := Except.ok.inj hwalk
    exact (Option.some.inj hfound).symm

end Disk

end StyleBatch
