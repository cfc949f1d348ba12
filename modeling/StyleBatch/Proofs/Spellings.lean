import StyleBatch.Proofs.Directories
import StyleBatch.Proofs.Resolution.Run

/-!
# Spellings of one file

On disk an import is named by its path from the root of the loader, and `.` and `..` are worked out
before the root is put in front of it.  Whatever the spelling, a path that stays below the root has
one name.  A path that leaves the root keeps its leading `..`, and so a file below the root that is
reached by way of a directory above has another name, another address and another location.

* `Folder.absolute_eq_joined`: for the absolute path it does not matter when a path is collapsed.
* `Folder.walk_lead`: from a root that is there, a path leads to the file at its absolute path.
* `Path.eq_of_lead`, `Path.climbs_eq_of_lead`: of two names with one absolute path, the one that
  leaves the root more often has more segments.
* `Folder.located_alike_iff`: two spellings of one file have the same address exactly if they leave
  the root equally often.
-/

namespace StyleBatch

open StyleBatch.Path (Counts IsName Normal down rooted isUp climb)

/-! ## Normal segments behind a root -/

namespace Path

variable {segments normal stack : List Text} {path : Text}

/-- How many `..` lead out of where the segments begin. -/
def climbs (segments : List Text) : Nat :=
  (segments.takeWhile isUp).length

/-- The path of a file that is imported under a base path. -/
def joined (base file : Text) : Text :=
  if Specifier.isRelative file then base ++ file else file

/-- Its segments, with `.` and `..` worked out. -/
def resolvedSegments (base file : Text) : List Text :=
  collapsedSegments (joined base file)

/-- Where segments lead from a directory. -/
def lead (segments normal : List Text) : List Text :=
  segments.take (segments.length - climbs normal) ++ normal.dropWhile isUp

theorem ups_append_names (normal : List Text) :
    List.replicate (climbs normal) (".." : Text) ++ normal.dropWhile isUp = normal := by
  have hups : normal.takeWhile isUp = List.replicate (climbs normal) (".." : Text) :=
    List.eq_replicate_of_mem fun s hs => isUp_iff.mp (List.mem_takeWhile_imp hs)
  rw [← hups, List.takeWhile_append_dropWhile]

theorem foldl_climb_ups (h : ∀ s ∈ stack, IsName s) (n : Nat) :
    (List.replicate n (".." : Text)).foldl (climb true) stack = stack.drop n := by
  induction n generalizing stack with
  | zero => rfl
  | succ n ih =>
    rw [List.replicate_succ, List.foldl_cons]
    cases stack with
    | nil =>
      have hroot : climb true [] (".." : Text) = [] := rfl
      rw [hroot, ih h, List.drop_nil, List.drop_nil]
    | cons top rest =>
      obtain ⟨htop, hrest⟩ := List.forall_mem_cons.mp h
      rw [climb_back true rest htop.2.2, ih hrest, List.drop_succ_cons]

theorem foldl_climb_names (h : ∀ s ∈ segments, IsName s) (absolute : Bool) (stack : List Text) :
    segments.foldl (climb absolute) stack = segments.reverse ++ stack := by
  induction segments generalizing stack with
  | nil => rfl
  | cons s segments ih =>
    obtain ⟨hs, hsegments⟩ := List.forall_mem_cons.mp h
    rw [List.foldl_cons, climb_name absolute stack hs, ih hsegments, List.reverse_cons,
      List.append_assoc, List.singleton_append]

/-- Normal segments first leave the directory where they begin. -/
theorem foldl_climb_normal (hsegments : ∀ s ∈ segments, IsName s) (h : Normal normal) :
    (normal.foldl (climb true) segments.reverse).reverse = lead segments normal := by
  have hstack : ∀ s ∈ segments.reverse, IsName s := fun s hs =>
    hsegments s (List.mem_reverse.mp hs)
  conv_lhs => rw [← ups_append_names normal]
  rw [List.foldl_append, foldl_climb_ups hstack, foldl_climb_names h, List.reverse_append,
    List.reverse_reverse, List.drop_reverse, List.reverse_reverse, lead]

/-- A collapsed path climbs like its segments. -/
theorem foldl_climb_collapse (path : Text) (absolute : Bool) (stack : List Text) :
    (Text.splitAtEach '/' (collapse path)).foldl (climb absolute) stack =
      (collapsedSegments path).foldl (climb absolute) stack := by
  have hslash : ∀ s ∈ collapsedSegments path, '/' ∉ s := fun s hs =>
    ((normal_collapsedSegments path).2 s hs).1.2.2
  have hjoined : (Text.splitAtEach '/' (Text.joinWith "/" (collapsedSegments path))).foldl
      (climb absolute) stack = (collapsedSegments path).foldl (climb absolute) stack := by
    by_cases hne : collapsedSegments path = []
    · rw [hne]
      exact climb_stay absolute stack (.inl rfl)
    · rw [splitAtEach_joinWith hslash hne]
  rw [collapse]
  split
  · have hsplit : ∀ t : Text, Text.splitAtEach '/' ('/' :: t) = [] :: Text.splitAtEach '/' t :=
      fun _ => rfl
    rw [hsplit, List.foldl_cons, climb_stay absolute stack (.inl rfl), hjoined]
  · exact hjoined

/-- So does the path itself, if no slash is in front of it. -/
theorem foldl_climb_relative (hpath : isAbsolute path = false) (hstack : ∀ s ∈ stack, IsName s) :
    (Text.splitAtEach '/' path).foldl (climb true) stack =
      (collapsedSegments path).foldl (climb true) stack := by
  have habove : stack = above stack :=
    (List.takeWhile_eq_self_iff.mpr fun s hs => not_isUp_iff.mpr (hstack s hs).2.2).symm
  rw [habove, foldl_climb_above, foldl_of_shortened (normalForm_of_relative hpath).1,
    foldl_climb_above]

/-- A path behind a rooted one climbs from there. -/
theorem collapsedSegments_rooted (h : ∀ s ∈ segments, IsName s ∧ '/' ∉ s) (t : Text) :
    collapsedSegments (rooted segments ++ '/' :: t) =
      ((Text.splitAtEach '/' t).foldl (climb true) segments.reverse).reverse := by
  have hstart : (Text.splitAtEach '/' (rooted segments)).foldl (climb true) [] =
      segments.reverse := by
    rw [rooted]
    split
    · rename_i hnil
      rw [hnil]
      rfl
    · rw [splitAtEach_down fun s hs => (h s hs).2, List.foldl_cons, climb_stay true [] (.inl rfl),
        foldl_climb_names (fun s hs => (h s hs).1), List.append_nil]
  rw [collapsedSegments, isAbsolute_rooted, Text.splitAtEach_middle, List.foldl_append, hstart]

theorem length_eq (normal : List Text) :
    normal.length = climbs normal + (normal.dropWhile isUp).length := by
  conv_lhs => rw [← ups_append_names normal]
  rw [List.length_append, List.length_replicate]

section Lead

variable {normal' : List Text} (h : lead segments normal = lead segments normal')
include h

/-- What leads to the same place and leaves the directory equally often is the same. -/
theorem eq_of_lead (hclimbs : climbs normal = climbs normal') : normal = normal' := by
  rw [lead, lead, hclimbs] at h
  rw [← ups_append_names normal, ← ups_append_names normal', hclimbs, List.append_cancel_left h]

/-- What leads to the same place in as many segments leaves the directory equally often: whoever
leaves it once more has to come back in. -/
theorem climbs_eq_of_lead (hlength : normal.length = normal'.length) :
    climbs normal = climbs normal' := by
  have hplace := congrArg List.length h
  simp only [lead, List.length_append, List.length_take] at hplace
  have hnormal := length_eq normal
  have hnormal' := length_eq normal'
  omega

end Lead

theorem counts_lead (h : ∀ s ∈ segments, Counts s) (hnormal : ∀ s ∈ normal, Counts s) :
    ∀ s ∈ lead segments normal, Counts s := by
  intro s hs
  rcases List.mem_append.mp hs with hs | hs
  · exact h s (List.mem_of_mem_take hs)
  · exact hnormal s (List.dropWhile_subset _ hs)

/-- No character but the dots of `..` is passed that is not in front of the segments or where they
lead. -/
theorem not_mem_rooted_append {c : Char} (hslash : c ≠ '/') (hdot : c ≠ '.')
    (h : c ∉ rooted segments) (hlead : c ∉ rooted (lead segments normal)) :
    c ∉ rooted (segments ++ normal) := by
  simp only [mem_rooted_iff hslash, not_exists, not_and] at h hlead ⊢
  intro s hs
  rcases List.mem_append.mp hs with hs | hs
  · exact h s hs
  · rw [← ups_append_names normal, List.mem_append] at hs
    rcases hs with hs | hs
    · rw [List.eq_of_mem_replicate hs]
      simp [hdot]
    · exact hlead s (List.mem_append_right _ hs)

end Path

/-! ## Imports on disk -/

/-- A directory by its names from the root directory of the disk. -/
structure Folder where
  segments : List Text
  names : ∀ s ∈ segments, IsName s ∧ '/' ∉ s

/-- The address of a file that is imported under a base path: the file's name, located. -/
def Library.address (lib : Library) (base file : Text) : Outcome := do
  let name ← lib.loader.normalize file base
  lib.loader.locate lib.disk name

/-- An import leads to the location of its address. -/
theorem Library.find_eq_map (lib : Library) (base file : Text) :
    lib.find base file = (lib.address base file).map Location.ofAddress := by
  rw [find, address]
  cases lib.loader.normalize file base with
  | error fault => rfl
  | ok name => rfl

namespace Folder

variable (folder : Folder)

/-- The folder as an absolute path. -/
def path : Text :=
  rooted folder.segments

/-- What the disk loader with this root reads. -/
def library (extension : Text) (disk : Disk) : Library :=
  ⟨.disk folder.path, extension, disk⟩

/-- The absolute path of an import: joined to its base path and collapsed, taken from the folder
and collapsed again.  A slash in front stands for the folder itself. -/
def absolute (base file : Text) : Text :=
  Path.collapse (folder.path ++ '/' :: Path.resolve base file)

variable {folder} {base file : Text}

theorem counts : ∀ s ∈ folder.segments, Counts s := fun s hs =>
  ⟨(folder.names s hs).1.1, (folder.names s hs).1.2.1, (folder.names s hs).2⟩

/-- Collapsing once, with the folder in front, is as good as collapsing before. -/
theorem absolute_eq_joined (h : Path.isAbsolute (Path.joined base file) = false) :
    folder.absolute base file =
      Path.collapse (folder.path ++ '/' :: Path.joined base file) := by
  have hstack : ∀ s ∈ folder.segments.reverse, IsName s := fun s hs =>
    (folder.names s (List.mem_reverse.mp hs)).1
  rw [absolute, Path.collapse, Path.collapse, path, Path.isAbsolute_rooted, Path.isAbsolute_rooted,
    Path.collapsedSegments_rooted folder.names, Path.collapsedSegments_rooted folder.names,
    Path.foldl_climb_relative h hstack, ← Path.foldl_climb_collapse]
  rfl

/-- The absolute path is where the segments of the import lead from the folder. -/
theorem absolute_eq : folder.absolute base file =
    rooted (Path.lead folder.segments (Path.resolvedSegments base file)) := by
  rw [absolute, Path.collapse, path, Path.isAbsolute_rooted, if_pos rfl, Path.cons_joinWith,
    Path.collapsedSegments_rooted folder.names, Path.resolve, Path.foldl_climb_collapse,
    Path.foldl_climb_normal (fun s hs => (folder.names s hs).1)
      (Path.normal_collapsedSegments _).1]
  rfl

/-- From a folder that is there, segments lead to a file where they do after collapsing them with
the folder: the directories that they pass are above the folder, or above the file. -/
theorem walk_lead {disk : Disk} {normal found : List Text} {bytes : Bytes}
    (hroot : disk.lookup folder.path = .ok .directory)
    (hwalk : disk.walk [] (Path.lead folder.segments normal) = .ok found)
    (hfound : disk.find? found = some (.file bytes)) :
    disk.walk [] (folder.segments ++ normal) = .ok found := by
  have hnames : ∀ s ∈ folder.segments, IsName s := fun s hs => (folder.names s hs).1
  have hstart : disk.find? [] = some .directory := rfl
  obtain ⟨-, -, top, htop, hdirectory⟩ := (Disk.lookup_rooted_iff folder.counts).mp hroot
  have habove : ∀ above, above <+: folder.segments → disk.find? above = some .directory :=
    fun _ h => Disk.directory_of_prefix hnames htop hdirectory h
  obtain rfl := Disk.eq_of_walk_names hnames htop
  rw [List.nil_append] at htop hdirectory
  have hfront : folder.segments.take (folder.segments.length - Path.climbs normal) <+:
      folder.segments := List.take_prefix _ _
  have hfrontNames := fun s hs => hnames s (hfront.subset hs)
  have hrest : normal.dropWhile isUp ≠ [] := by
    intro hnil
    rw [Path.lead, hnil, List.append_nil] at hwalk
    rw [Disk.eq_of_walk_names hfrontNames hwalk, List.nil_append, habove _ hfront] at hfound
    cases hfound
  have hnormal := Path.ups_append_names normal
  obtain ⟨there, hthere, -, hwalk⟩ := (Disk.walk_append_iff hstart hrest).mp hwalk
  obtain rfl := Disk.eq_of_walk_names hfrontNames hthere
  rw [List.nil_append] at hwalk
  rw [Disk.walk_append_iff hstart (by rw [← hnormal]; simp [hrest])]
  refine ⟨_, htop, hdirectory, ?_⟩
  rw [← hnormal, Disk.walk_append_iff hdirectory hrest]
  exact ⟨_, Disk.walk_ups habove _, habove _ hfront, hwalk⟩

variable {extension : Text} {disk : Disk}

/-- The segments of an import that does not stand for the folder itself. -/
theorem exists_resolvedSegments (hne : Path.resolvedSegments base file ≠ []) : ∃ front s,
    Path.resolvedSegments base file = front ++ [s] ∧ ∀ t ∈ front ++ [s], Counts t := by
  obtain ⟨front, s, hsegments⟩ := (List.eq_nil_or_concat' _).resolve_left hne
  refine ⟨front, s, hsegments, fun t ht => ?_⟩
  rw [← hsegments] at ht
  exact ((Path.normal_collapsedSegments _).2 t ht).1

theorem pathOf_joinWith (hne : Path.resolvedSegments base file ≠ []) :
    Loader.pathOf folder.path (Text.joinWith "/" (Path.resolvedSegments base file)) =
      rooted (folder.segments ++ Path.resolvedSegments base file) := by
  obtain ⟨front, s, hsegments, hcounts⟩ := exists_resolvedSegments hne
  rw [hsegments, path, Loader.pathOf_rooted folder.counts hcounts, rooted, if_neg (by simp),
    List.append_assoc]

theorem pathOf_resolve (hne : Path.resolvedSegments base file ≠ []) :
    Loader.pathOf folder.path (Path.resolve base file) =
      rooted (folder.segments ++ Path.resolvedSegments base file) := by
  obtain ⟨front, s, hsegments, hcounts⟩ := exists_resolvedSegments hne
  rw [← pathOf_joinWith hne, Loader.pathOf, Loader.pathOf,
    Path.dropWhile_joinWith (hsegments ▸ hcounts)]
  exact congrArg _ (Path.dropWhile_collapse _)

/-- The address of an import is looked for by the name that its segments spell. -/
theorem address_eq_locate (hne : Path.resolvedSegments base file ≠ []) :
    (folder.library extension disk).address base file =
      (Loader.disk folder.path).locate disk
        (Text.joinWith "/" (Path.resolvedSegments base file)) := by
  have hfile : file ≠ [] := by
    rintro rfl
    exact hne rfl
  have hname : (Path.resolve base file).dropWhile (· == '/') =
      Text.joinWith "/" (Path.resolvedSegments base file) := Path.dropWhile_collapse _
  rw [library, Library.address, Loader.normalize_disk hfile, hname]
  rfl

/-- An import of a file that is there does not stand for the folder itself. -/
theorem resolvedSegments_ne_nil {bytes : Bytes} (hroot : disk.lookup folder.path = .ok .directory)
    (hthere : disk.lookup (folder.absolute base file) = .ok (.file bytes)) :
    Path.resolvedSegments base file ≠ [] := by
  intro hnil
  have hlead : Path.lead folder.segments [] = folder.segments := by
    simp [Path.lead, Path.climbs]
  rw [absolute_eq, hnil, hlead, ← path.eq_def, hroot] at hthere
  cases hthere

/-- The file that is there is found on the path that the import spells. -/
theorem has_rooted {bytes : Bytes} (hroot : disk.lookup folder.path = .ok .directory)
    (hthere : disk.lookup (folder.absolute base file) = .ok (.file bytes))
    (hsize : Text.byteSize (Loader.pathOf folder.path (Path.resolve base file)) < 4096) :
    disk.has (rooted (folder.segments ++ Path.resolvedSegments base file)) = true := by
  have hne := resolvedSegments_ne_nil hroot hthere
  obtain ⟨front, s, hsegments, hcounts⟩ := exists_resolvedSegments hne
  rw [← hsegments] at hcounts
  rw [pathOf_resolve hne] at hsize
  rw [absolute_eq, Disk.lookup_rooted_iff (Path.counts_lead folder.counts hcounts)] at hthere
  obtain ⟨hnul, -, found, hwalk, hfound⟩ := hthere
  have hnulRoot := ((Disk.lookup_rooted_iff folder.counts).mp hroot).1
  have hwhole : ∀ t ∈ folder.segments ++ Path.resolvedSegments base file, Counts t := fun t ht =>
    (List.mem_append.mp ht).elim (folder.counts t) (hcounts t)
  rw [Disk.has, (Disk.lookup_rooted_iff hwhole).mpr
    ⟨Path.not_mem_rooted_append (by decide) (by decide) hnulRoot hnul, hsize, found,
      walk_lead hroot hwalk hfound, hfound⟩]

/-- An import of a file that is there is located where its path from the folder leads. -/
theorem address_eq {bytes : Bytes} (extension : Text)
    (hroot : disk.lookup folder.path = .ok .directory)
    (hthere : disk.lookup (folder.absolute base file) = .ok (.file bytes))
    (hsize : Text.byteSize (Loader.pathOf folder.path (Path.resolve base file)) < 4096) :
    (folder.library extension disk).address base file =
      .ok ("file:" ++ rooted (folder.segments ++ Path.resolvedSegments base file)) := by
  have hne := resolvedSegments_ne_nil hroot hthere
  have habsolute : Path.isAbsolute
      (rooted (folder.segments ++ Path.resolvedSegments base file)) = true := by
    simpa using Path.isAbsolute_rooted (folder.segments ++ Path.resolvedSegments base file) []
  obtain ⟨more, hmore⟩ := Loader.exists_candidates folder.path
    (Text.joinWith "/" (Path.resolvedSegments base file))
  rw [address_eq_locate hne, Loader.locate, hmore, pathOf_joinWith hne, List.findSome?_cons,
    Loader.probe?, has_rooted hroot hthere hsize, if_pos rfl, Loader.addressOf, habsolute,
    if_pos rfl]

/-- No slash is in a path below the folder, nor in what takes the place of its last segment. -/
theorem slash_not_mem {front : List Text} {s t : Text} (h : ∀ u ∈ front ++ [s], Counts u)
    (ht : t ⊆ s) : ∀ u ∈ folder.segments ++ front ++ [t], '/' ∉ u := by
  intro u hu
  rw [List.append_assoc] at hu
  rcases List.mem_append.mp hu with hu | hu
  · exact (folder.names u hu).2
  · rcases List.mem_append.mp hu with hu | hu
    · exact (h u (List.mem_append_left _ hu)).2.2
    · obtain rfl := List.mem_singleton.mp hu
      exact fun hmem => (h s (by simp)).2.2 (ht hmem)

/-- Where two imports with the same absolute path are located, they are located at the same address
exactly if they leave the folder equally often. -/
theorem address_eq_iff {base' file' : Text}
    (hsame : folder.absolute base file = folder.absolute base' file')
    (hne : Path.resolvedSegments base file ≠ []) (hne' : Path.resolvedSegments base' file' ≠ [])
    {a a' : Text} (ha : (folder.library extension disk).address base file = .ok a)
    (ha' : (folder.library extension disk).address base' file' = .ok a') :
    a = a' ↔ Path.climbs (Path.resolvedSegments base file) =
      Path.climbs (Path.resolvedSegments base' file') := by
  obtain ⟨front, s, hsegments, hcounts⟩ := exists_resolvedSegments hne
  obtain ⟨front', s', hsegments', hcounts'⟩ := exists_resolvedSegments hne'
  rw [absolute_eq, absolute_eq] at hsame
  have hlead := Path.rooted_inj (Path.counts_lead folder.counts (hsegments ▸ hcounts))
    (Path.counts_lead folder.counts (hsegments' ▸ hcounts')) hsame
  rw [address_eq_locate hne] at ha
  rw [address_eq_locate hne'] at ha'
  constructor
  · rintro rfl
    refine Path.climbs_eq_of_lead hlead ?_
    rw [hsegments] at ha
    rw [hsegments'] at ha'
    -- A partial may be found under its plain name, which is still one segment.
    obtain ⟨t, ht, rfl⟩ := Loader.exists_of_locate folder.counts hcounts ha
    obtain ⟨t', ht', heq⟩ := Loader.exists_of_locate folder.counts hcounts' ha'
    have hlength := congrArg List.length (Path.down_inj (folder.slash_not_mem hcounts ht)
      (folder.slash_not_mem hcounts' ht') (List.append_cancel_left heq))
    rw [hsegments, hsegments']
    simpa using hlength
  · intro hclimbs
    rw [Path.eq_of_lead hlead hclimbs, ha'] at ha
    exact (Except.ok.inj ha).symm

/-- Two imports with the same absolute path of a file that is there are both located, each where its
location says, and at the same address exactly if they leave the folder equally often. -/
theorem located_alike_iff (folder : Folder) (extension : Text) {base file base' file' : Text}
    {bytes : Bytes} (hroot : disk.lookup folder.path = .ok .directory)
    (hsame : folder.absolute base file = folder.absolute base' file')
    (hthere : disk.lookup (folder.absolute base file) = .ok (.file bytes))
    (hsize : Text.byteSize (Loader.pathOf folder.path (Path.resolve base file)) < 4096)
    (hsize' : Text.byteSize (Loader.pathOf folder.path (Path.resolve base' file')) < 4096) :
    ∃ a a', (folder.library extension disk).address base file = .ok a ∧
      (folder.library extension disk).address base' file' = .ok a' ∧
      (folder.library extension disk).find base file = .ok (Location.ofAddress a) ∧
      (folder.library extension disk).find base' file' = .ok (Location.ofAddress a') ∧
      (a = a' ↔ Path.climbs (Path.resolvedSegments base file) =
        Path.climbs (Path.resolvedSegments base' file')) := by
  have hthere' : disk.lookup (folder.absolute base' file') = .ok (.file bytes) := hsame ▸ hthere
  have haddress := folder.address_eq extension hroot hthere hsize
  have haddress' := folder.address_eq extension hroot hthere' hsize'
  refine ⟨_, _, haddress, haddress', ?_, ?_, address_eq_iff hsame
    (resolvedSegments_ne_nil hroot hthere) (resolvedSegments_ne_nil hroot hthere')
    haddress haddress'⟩
  · rw [Library.find_eq_map, haddress]
    rfl
  · rw [Library.find_eq_map, haddress']
    rfl

section Spelled

def spelledFolder : Folder :=
  ⟨["r"], by decide⟩

/-- A folder with one partial. -/
def spelledDisk : Disk :=
  ⟨[], [(["r"], .directory), (["r", "_a.scss"], .file (Utf8.encode "x"))]⟩

def spelledLibrary : Library :=
  spelledFolder.library "scss" spelledDisk

theorem located_alike_spelled : ∃ a a', spelledLibrary.address "s/" "../_a.scss" = .ok a ∧
    spelledLibrary.address "t/u/" "../../t/.././_a.scss" = .ok a' ∧
    spelledLibrary.find "s/" "../_a.scss" = .ok (Location.ofAddress a) ∧
    spelledLibrary.find "t/u/" "../../t/.././_a.scss" = .ok (Location.ofAddress a') ∧
    (a = a' ↔ Path.climbs (Path.resolvedSegments "s/" "../_a.scss") =
      Path.climbs (Path.resolvedSegments "t/u/" "../../t/.././_a.scss")) := by
  have hthere : spelledDisk.lookup (spelledFolder.absolute "s/" "../_a.scss") =
      .ok (.file (Utf8.encode "x")) := by decide +kernel
  exact located_alike_iff spelledFolder "scss" (by decide +kernel) (by decide +kernel) hthere
    (by decide +kernel) (by decide +kernel)

/-- A file in `/r/s` that imports the partial in `/r`, once directly and once by way of the root
directory. -/
def spelledLoads : List Load :=
  [⟨"file:/r/s/y.scss", "@import \"../a\";@import \"../../r/a\";", []⟩]

/-- An import that leaves the folder and comes back has another address than one that does not:
the partial is fetched twice. -/
theorem located_apart :
    spelledFolder.absolute "s/" "../_a.scss" = spelledFolder.absolute "s/" "../../r/_a.scss" ∧
      spelledDisk.lookup (spelledFolder.absolute "s/" "../_a.scss") =
        .ok (.file (Utf8.encode "x")) ∧
      spelledLibrary.address "s/" "../_a.scss" = .ok "file:/r/_a.scss" ∧
      spelledLibrary.address "s/" "../../r/_a.scss" = .ok "file:/r/../r/_a.scss" ∧
      (Resolution.play spelledLibrary spelledLoads 20).fetched =
        [("file:/r/_a.scss" : Text), ("file:/r/../r/_a.scss" : Text)] ∧
      (Resolution.play spelledLibrary spelledLoads 20).loads.map Load.text =
        [("x;x;" : Text)] := by
  decide +kernel

end Spelled

end Folder

end StyleBatch
