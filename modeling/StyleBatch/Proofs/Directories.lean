import StyleBatch.Proofs.Library
import StyleBatch.Proofs.Lookups
import StyleBatch.Proofs.Pieces

/-!
# On disk, imports are resolved in the directory of their file

The address of a file on disk is cut down to the directory of the file, as a path from the root of
the loader, and an import is looked up there.  A file in the root itself has the base path `/`,
which is absolute: an import that climbs above the root from there stays in it.

* `Disk.isName_of_readText`: what can be read ends in a name.
* `Sheet.base_address`: the base path of an address is the directory of its file.
* `Sheet.normalize_file`: the name of an import is the normal form of its path from that directory.
* `Root.exists_sheet`: what is located and read is again a file with an address of this kind.
* `Root.imports_resolved`: so all this holds along chains of imports.
-/

namespace StyleBatch

open StyleBatch.Path (Counts IsName Normal NormalForm below down rooted isUp)

/-- Neither the bar of keys nor the mark of loader plugins is in the text. -/
def Text.Unmarked (t : Text) : Prop :=
  Key.separator ∉ t ∧ Location.pluginMark ∉ t

instance (t : Text) : Decidable (Text.Unmarked t) :=
  inferInstanceAs (Decidable (_ ∧ _))

/-- A directory by its names from the root directory of the disk. -/
structure Root where
  segments : List Text
  names : ∀ s ∈ segments, IsName s ∧ '/' ∉ s ∧ Text.Unmarked s

/-- A file below or beside a root, by its normal path from there. -/
structure Sheet where
  directory : List Text
  name : Text
  normal : Normal directory
  isName : IsName name
  whole : ∀ s ∈ directory ++ [name], '/' ∉ s ∧ Text.Unmarked s

/-- The root as an absolute path. -/
def Root.path (root : Root) : Text :=
  rooted root.segments

namespace Sheet

/-- The path from the root. -/
def path (sheet : Sheet) : Text :=
  Text.joinWith "/" (sheet.directory ++ [sheet.name])

/-- The directory with a trailing slash; the root itself is `/`. -/
def base (sheet : Sheet) : Text :=
  if sheet.directory = [] then "/" else below sheet.directory

/-- The segments of an import's path, in their normal form, as the loader names them: leading `..`
are lost if the importing file is in the root. -/
def named (sheet : Sheet) (normal : List Text) : Text :=
  Text.joinWith "/" (if sheet.directory = [] then normal.dropWhile isUp else normal)

end Sheet

/-- The specifier is joined to the directory of its file: what it means is relative, or does not
begin with the base path. -/
def Specifier.Joined (extension base specifier : Text) : Prop :=
  isRelative (partialFile extension specifier) = true ∨ ¬base <+: partialFile extension specifier

/-- The sources that a chain of imports leads to from a source at an address. -/
inductive Library.Descends (lib : Library) (address source : Text) : Text → Text → Prop
  | refl : Descends lib address source address source
  | step {address' source' raw : Text} {d : Directive} {i : Import} {l : Location} :
      Descends lib address source address' source' → d ∈ Directive.scan source' →
        i = Specifier.toImport lib.extension (lib.base address') (Text.trim d.specifier) →
          Text.Unmarked (Specifier.partialFile lib.extension (Text.trim d.specifier)) →
            lib.find i.key.base i.file = .ok l → lib.fetch l = .ok raw →
              Descends lib address source l.text raw

/-- At an address, an import is resolved in the directory of a sheet: its name is the normal form of
its path from there, and where it is found and read its own base path is the directory of what was
found. -/
structure Root.Resolves (root : Root) (lib : Library) (address : Text) (sheet : Sheet) : Prop where
  stands : address = Loader.addressOf root.path sheet.path
  base : lib.base address = sheet.base
  name : ∀ {specifier : Text} {i : Import},
    i = Specifier.toImport lib.extension (lib.base address) specifier →
      Specifier.Joined lib.extension (lib.base address) specifier →
        ∃ normal, NormalForm (sheet.directory ++
            Text.splitAtEach '/' (Specifier.partialFile lib.extension specifier)) normal ∧
          lib.loader.normalize i.file i.key.base = .ok (sheet.named normal)
  located : ∀ {specifier raw : Text} {i : Import} {l : Location},
    Text.Unmarked (Specifier.partialFile lib.extension specifier) →
      i = Specifier.toImport lib.extension (lib.base address) specifier →
        lib.find i.key.base i.file = .ok l → lib.fetch l = .ok raw →
          ∃ sheet' : Sheet, l.text = Loader.addressOf root.path sheet'.path ∧
            lib.base l.text = sheet'.base

/-! ## What can be read -/

namespace Disk

variable {disk : Disk}

/-- A walk that does not end at a directory ends with a name. -/
theorem isName_of_walk {here front found : List Text} {s : Text}
    (hwalk : walk disk here (front ++ [s]) = .ok found) (hs : s ≠ [])
    (habove : ∀ d, d <+: here → find? disk d = some .directory)
    (hfound : find? disk found ≠ some .directory) : IsName s := by
  induction front generalizing here with
  | nil =>
    obtain ⟨-, rfl⟩ := walk_singleton_iff.mp hwalk
    refine ⟨hs, ?_, ?_⟩
    · rintro rfl
      exact hfound (habove _ List.prefix_rfl)
    · rintro rfl
      exact hfound (habove _ (List.dropLast_prefix _))
  | cons t front ih =>
    obtain ⟨-, hthere, hwalk⟩ := (walk_cons_iff (by simp)).mp hwalk
    refine ih hwalk fun d hd => ?_
    rcases eq_or_prefix_of_toward hd with rfl | hd
    · exact hthere
    · exact habove d hd

/-- A place is where a walk along the segments ends. -/
theorem walk_of_place {path : Text} {found : Place} (h : place disk path = .ok found) :
    walk disk (if Path.isAbsolute path then [] else disk.workingDirectory)
        ((Text.splitAtEach '/' path).filter fun s => !s.isEmpty) = .ok found.segments ∧
      found.asDirectory = ((Text.splitAtEach '/' path).getLast? == some []) := by
  obtain ⟨-, -, -, hwalk, hslash⟩ := place_eq_ok_iff.mp h
  exact ⟨hwalk, hslash⟩

/-- What can be read is a file at a place that no slash ends. -/
theorem exists_place_of_readText {path raw : Text} (h : readText disk path = .ok raw) :
    ∃ found bytes, place disk path = .ok ⟨found, false⟩ ∧
      find? disk found = some (.file bytes) := by
  obtain ⟨bytes, hlookup⟩ : ∃ bytes, lookup disk path = .ok (.file bytes) := by
    rw [readText, read] at h
    split at h
    · cases h
    · rename_i hread
      split at hread
      · rename_i hlookup
        exact ⟨_, hlookup⟩
      · cases hread
      · cases hread
  obtain ⟨⟨found, slash⟩, hplace, hfound, hslash⟩ := lookup_eq_ok_iff.mp hlookup
  cases slash with
  | true => cases hslash rfl
  | false => exact ⟨found, bytes, hplace, hfound⟩

/-- So a path down from the root directory ends in a name. -/
theorem isName_of_readText {segments : List Text} {s raw : Text}
    (hslash : ∀ t ∈ segments ++ [s], '/' ∉ t)
    (h : readText disk (down (segments ++ [s])) = .ok raw) : IsName s := by
  obtain ⟨found, bytes, hplace, hfound⟩ := exists_place_of_readText h
  obtain ⟨hwalk, hlast⟩ := walk_of_place hplace
  have habsolute : Path.isAbsolute (down (segments ++ [s])) = true := by
    cases segments <;> rfl
  rw [Path.splitAtEach_down hslash, ← List.cons_append] at hwalk hlast
  rw [List.getLast?_concat] at hlast
  have hs : s ≠ [] := by simpa using hlast
  rw [habsolute, if_pos rfl, List.filter_append,
    List.filter_cons_of_pos (l := []) (by simpa using hs)] at hwalk
  refine isName_of_walk hwalk hs (fun d hd => ?_) (by simp [hfound])
  rw [List.prefix_nil.mp hd]
  rfl

end Disk

/-! ## Sheets -/

namespace Sheet

variable {root : Root} {sheet : Sheet}

theorem counts (sheet : Sheet) : ∀ s ∈ sheet.directory ++ [sheet.name], Counts s := by
  intro s hs
  have hslash := (sheet.whole s hs).1
  rcases List.mem_append.mp hs with hs | hs
  · exact sheet.normal.counts hs hslash
  · obtain rfl := List.mem_singleton.mp hs
    exact ⟨sheet.isName.1, sheet.isName.2.1, hslash⟩

theorem counts_directory (sheet : Sheet) : ∀ s ∈ sheet.directory, Counts s :=
  fun s hs => sheet.counts s (List.mem_append_left _ hs)

theorem path_eq (sheet : Sheet) : sheet.path = below sheet.directory ++ sheet.name :=
  Path.joinWith_concat _ _

theorem mem_base {c : Char} (h : c ∈ sheet.base) : c = '/' ∨ ∃ s ∈ sheet.directory, c ∈ s := by
  rw [base] at h
  split at h
  · exact .inl (List.mem_singleton.mp h)
  · obtain ⟨s, hs, hc⟩ := List.mem_flatMap.mp h
    rcases List.mem_append.mp hc with hc | hc
    · exact .inr ⟨s, hs, hc⟩
    · exact .inl (List.mem_singleton.mp hc)

theorem unmarked_base (sheet : Sheet) : Text.Unmarked sheet.base := by
  have hnot : ∀ c : Char, c ≠ '/' → (∀ s ∈ sheet.directory, c ∉ s) → c ∉ sheet.base :=
    fun c hslash hc hmem => (mem_base hmem).elim hslash fun ⟨s, hs, hmem⟩ => hc s hs hmem
  have hwhole := fun s hs => (sheet.whole s (List.mem_append_left _ hs)).2
  exact ⟨hnot _ (by decide) fun s hs => (hwhole s hs).1,
    hnot _ (by decide) fun s hs => (hwhole s hs).2⟩

end Sheet

/-! ## Addresses and base paths -/

namespace Address

/-- An origin has two slashes one behind the other. -/
theorem eq_of_afterOrigin? {t path : Text} (h : afterOrigin? t = some path) :
    ∃ before after, t = before ++ '/' :: '/' :: after := by
  simp only [afterOrigin?, Option.bind_eq_bind, Option.bind_eq_some_iff] at h
  obtain ⟨rest, hrest, tail, htail, -⟩ := h
  have htail := Text.eq_of_after? htail
  rw [Text.eq_of_after? hrest]
  split at htail
  · exact ⟨"https:", tail, by rw [htail]; rfl⟩
  · exact ⟨"http:", tail, by rw [htail]; rfl⟩

theorem withoutOrigin_eq {t : Text} (h : ¬['/', '/'] <:+: t) : withoutOrigin t = t := by
  induction t with
  | nil => rfl
  | cons c t ih =>
    rw [withoutOrigin, ih fun hslashes => h (hslashes.trans (List.suffix_cons c t).isInfix)]
    split
    · rename_i horigin
      obtain ⟨before, after, heq⟩ := eq_of_afterOrigin? horigin
      exact absurd ⟨before, after, by rw [heq]; simp⟩ h
    · rfl

/-- Between two slashes there is a blank piece. -/
theorem not_infix_of_pieces {t : Text} (h : [] ∉ Text.splitAtEach '/' t) : ¬['/', '/'] <:+: t := by
  rintro ⟨before, after, rfl⟩
  rw [List.append_assoc, List.cons_append, Text.splitAtEach_middle] at h
  exact h (List.mem_append_right _ List.mem_cons_self)

end Address

theorem Path.dropEnd_rooted {segments : List Text} (h : ∀ s ∈ segments, Counts s) :
    Text.dropEnd (· == '/') (rooted segments) = down segments := by
  cases segments using List.reverseRecOn with
  | nil => rfl
  | append_singleton front s =>
    obtain ⟨hne, -, hslash⟩ := h s (by simp)
    obtain ⟨c, back, hback⟩ := List.exists_cons_of_ne_nil (mt List.reverse_eq_nil_iff.mp hne)
    have hc : c ≠ '/' := by
      rintro rfl
      exact hslash (List.mem_reverse.mp (hback ▸ List.mem_cons_self))
    rw [Path.rooted_concat, Path.down_concat, Text.dropEnd, List.reverse_append, List.reverse_cons,
      List.append_assoc, hback, List.cons_append, List.dropWhile_cons_of_neg (by simpa using hc),
      ← List.cons_append, ← hback, ← List.append_assoc, ← List.reverse_cons, ← List.reverse_append,
      List.reverse_reverse]

namespace Root

variable (root : Root)

theorem counts : ∀ s ∈ root.segments, Counts s :=
  fun s hs => ⟨(root.names s hs).1.1, (root.names s hs).1.2.1, (root.names s hs).2.1⟩

/-- The address of a path from the root. -/
theorem addressOf_eq {path : Text} (hpath : Path.isAbsolute path = false) :
    Loader.addressOf root.path path = "file:" ++ down root.segments ++ "/" ++ path := by
  rw [Loader.addressOf, hpath, if_neg Bool.false_ne_true, Root.path,
    Path.join_rooted root.counts hpath]
  simp

end Root

namespace Sheet

variable {root : Root} {extension : Text} {disk : Disk}

theorem isAbsolute_path (sheet : Sheet) : Path.isAbsolute sheet.path = false :=
  Path.isAbsolute_joinWith sheet.counts

theorem cutAtLast?_path (sheet : Sheet) :
    (match Text.cutAtLast? '/' sheet.path with
      | some (directory, _) => directory ++ ['/']
      | none => ['/']) = sheet.base := by
  have hname := (sheet.whole sheet.name (by simp)).1
  rw [path_eq, base]
  cases sheet.directory using List.reverseRecOn with
  | nil =>
    rw [below, List.flatMap_nil, List.nil_append, Text.cutAtLast?_of_not_mem hname]
    rfl
  | append_singleton front s =>
    have hbelow : below (front ++ [s]) = below front ++ s ++ ['/'] := by
      simp [below]
    rw [hbelow, List.append_assoc, List.singleton_append, Text.cutAtLast?_append _ hname,
      if_neg (by simp)]

theorem withoutOrigin_path (sheet : Sheet) : Address.withoutOrigin sheet.path = sheet.path := by
  refine Address.withoutOrigin_eq (Address.not_infix_of_pieces ?_)
  have hname := (sheet.whole sheet.name (by simp)).1
  rw [path_eq, Path.splitAtEach_below fun s hs => (sheet.counts_directory s hs).2.2,
    Text.splitAtEach_of_not_mem hname, List.mem_append, List.mem_singleton]
  exact not_or.mpr ⟨fun hmem => (sheet.counts_directory _ hmem).1 rfl,
    fun heq => sheet.isName.1 heq.symm⟩

/-- The base path of the address of a file is its directory. -/
theorem base_address (sheet : Sheet) :
    Library.base ⟨.disk root.path, extension, disk⟩ (Loader.addressOf root.path sheet.path) =
      sheet.base := by
  have hcut : Text.cut? ("file:" ++ down root.segments ++ "/")
      ("file:" ++ down root.segments ++ "/" ++ sheet.path) = some ([], sheet.path) :=
    Text.cut?_self 'f' _ _
  rw [root.addressOf_eq sheet.isAbsolute_path, Library.base, Loader.workingDirectory?, Root.path,
    Path.dropEnd_rooted root.counts, Address.base, Text.replaceFirst, hcut]
  dsimp only
  rw [List.nil_append, List.nil_append, sheet.withoutOrigin_path]
  exact sheet.cutAtLast?_path

/-! ## Names of imports -/

theorem isRelative_dot (t : Text) : Specifier.isRelative ("./" ++ t) = true := by
  rw [Specifier.isRelative, Text.after?_append]
  rfl

/-- A joined specifier is asked for as a relative file with the same normal form. -/
theorem file_of_joined {base specifier : Text} {normal : List Text} (directory : List Text)
    (hjoined : Specifier.Joined extension base specifier)
    (h : NormalForm (directory ++
      Text.splitAtEach '/' (Specifier.partialFile extension specifier)) normal) :
    Specifier.isRelative (Specifier.file extension base specifier) = true ∧
      NormalForm (directory ++ Text.splitAtEach '/' (Specifier.file extension base specifier))
        normal := by
  rw [Specifier.file]
  by_cases hrelative : Specifier.isRelative (Specifier.partialFile extension specifier) = true
  · rw [hrelative, Bool.true_or, if_pos rfl]
    exact ⟨hrelative, h⟩
  · have hnot : ¬base.isPrefixOf (Specifier.partialFile extension specifier) = true :=
      fun hstarts => hjoined.resolve_left hrelative (List.isPrefixOf_iff_prefix.mp hstarts)
    rw [if_neg (by simp [hrelative, hnot])]
    refine ⟨isRelative_dot _, ?_⟩
    have hdot : '/' ∉ ("." : Text) := by decide
    have hsplit : Text.splitAtEach '/' ("./" ++ Specifier.partialFile extension specifier) =
        ("." : Text) :: Text.splitAtEach '/' (Specifier.partialFile extension specifier) :=
      Text.splitAtEach_append hdot _
    rw [hsplit]
    exact Path.normalForm_dot.mpr h

/-- The name of an import is the normal form of its path from the directory of the file. -/
theorem resolve_file (sheet : Sheet) {specifier : Text} {normal : List Text}
    (hjoined : Specifier.Joined extension sheet.base specifier)
    (h : NormalForm (sheet.directory ++
      Text.splitAtEach '/' (Specifier.partialFile extension specifier)) normal) :
    (Path.resolve sheet.base (Specifier.file extension sheet.base specifier)).dropWhile (· == '/') =
      sheet.named normal := by
  obtain ⟨hrelative, hform⟩ := file_of_joined sheet.directory hjoined h
  have hcounts : ∀ s ∈ normal, Counts s := by
    intro s hs
    refine hform.2.counts hs ?_
    rcases List.mem_append.mp (hform.mem hs) with hmem | hmem
    · exact (sheet.counts_directory s hmem).2.2
    · exact (Text.mem_of_mem_splitAtEach hmem).1
  rw [Path.resolve, if_pos hrelative, named]
  by_cases hdirectory : sheet.directory = []
  · rw [hdirectory] at hform
    have hbase : sheet.base = "/" := if_pos hdirectory
    have hcollapse : Path.collapse ("/" ++ Specifier.file extension sheet.base specifier) =
        '/' :: Text.joinWith "/" (normal.dropWhile isUp) := Path.collapse_of_absolute hform
    rw [hbase] at hcollapse ⊢
    rw [if_pos hdirectory, hcollapse, List.dropWhile_cons_of_pos (by decide)]
    exact Path.dropWhile_joinWith fun s hs => hcounts s (List.dropWhile_subset _ hs)
  · have hbase : sheet.base = below sheet.directory := if_neg hdirectory
    have hpath : Path.isAbsolute (below sheet.directory ++
        Specifier.file extension (below sheet.directory) specifier) = false := by
      obtain ⟨s, rest, heq⟩ := List.exists_cons_of_ne_nil hdirectory
      have hs : Counts s := sheet.counts_directory s (heq ▸ List.mem_cons_self)
      rw [heq, below, List.flatMap_cons, List.append_assoc, List.append_assoc]
      exact Path.isAbsolute_append hs _
    rw [← Path.splitAtEach_below fun s hs => (sheet.counts_directory s hs).2.2, hbase] at hform
    rw [hbase, if_neg hdirectory, Path.collapse_of_relative hpath hform,
      Path.dropWhile_joinWith hcounts]

end Sheet

/-! ## Files -/

namespace Loader

theorem normalize_disk {root file base : Text} (hfile : file ≠ []) :
    (disk root).normalize file base = .ok ((Path.resolve base file).dropWhile (· == '/')) := by
  rw [normalize, if_neg (by simpa using hfile)]

/-- A path down from the root directory stands for itself. -/
theorem addressOf_down {root : Text} {segments : List Text} {s : Text} :
    addressOf root (down (segments ++ [s])) = "file:" ++ down (segments ++ [s]) := by
  have habsolute : Path.isAbsolute (down (segments ++ [s])) = true := by
    cases segments <;> rfl
  rw [addressOf, habsolute, if_pos rfl]

/-- A name is looked up below the root. -/
theorem pathOf_rooted {segments front : List Text} {s : Text} (hroot : ∀ t ∈ segments, Counts t)
    (h : ∀ t ∈ front ++ [s], Counts t) :
    pathOf (rooted segments) (Text.joinWith "/" (front ++ [s])) =
      down (segments ++ front ++ [s]) := by
  rw [pathOf, Path.dropWhile_joinWith h, Path.join_rooted hroot (Path.isAbsolute_joinWith h),
    Path.down_cons_joinWith]

theorem exists_candidates (root name : Text) :
    ∃ more, (disk root).candidates name = pathOf root name :: more := by
  rw [candidates]
  split <;> exact ⟨_, rfl⟩

/-- What is probed for a name lies in the directory of the name. -/
theorem exists_of_mem_candidates {segments front : List Text} {s candidate : Text}
    (hroot : ∀ t ∈ segments, Counts t) (h : ∀ t ∈ front ++ [s], Counts t)
    (hcandidate :
      candidate ∈ (disk (rooted segments)).candidates (Text.joinWith "/" (front ++ [s]))) :
    ∃ t, t ⊆ s ∧ candidate = down (segments ++ front ++ [t]) := by
  have hcounts : ∀ t ∈ segments ++ front, Counts t := by
    intro t ht
    rcases List.mem_append.mp ht with ht | ht
    · exact hroot t ht
    · exact h t (List.mem_append_left _ ht)
  have hs := h s (by simp)
  rw [candidates, pathOf_rooted hroot h] at hcandidate
  by_cases hup : s = ".."
  · subst hup
    rw [Path.fileName?_down_up hcounts] at hcandidate
    exact ⟨_, List.Subset.refl _, List.mem_singleton.mp hcandidate⟩
  · rw [Path.fileName?_down hcounts hs hup] at hcandidate
    split at hcandidate
    · rename_i plain heq
      obtain rfl := Option.some.inj heq
      rcases List.mem_cons.mp hcandidate with rfl | hcandidate
      · exact ⟨_, List.Subset.refl _, rfl⟩
      · refine ⟨plain, List.subset_cons_self _ _, ?_⟩
        rw [List.mem_singleton.mp hcandidate, Path.withFileName_down hcounts hs hup]
        exact Path.isAbsolute_of_not_mem fun hmem => hs.2.2 (List.mem_cons_of_mem _ hmem)
    · exact ⟨_, List.Subset.refl _, List.mem_singleton.mp hcandidate⟩

/-- So does what is located for it. -/
theorem exists_of_locate {d : Disk} {segments front : List Text} {s address : Text}
    (hroot : ∀ t ∈ segments, Counts t) (h : ∀ t ∈ front ++ [s], Counts t)
    (hlocate :
      (disk (rooted segments)).locate d (Text.joinWith "/" (front ++ [s])) = .ok address) :
    ∃ t, t ⊆ s ∧ address = "file:" ++ down (segments ++ front ++ [t]) := by
  rw [locate] at hlocate
  split at hlocate
  · rename_i hfound
    obtain rfl := Except.ok.inj hlocate
    obtain ⟨candidate, hcandidate, hprobe⟩ := List.exists_of_findSome?_eq_some hfound
    obtain ⟨t, ht, rfl⟩ := exists_of_mem_candidates hroot h hcandidate
    refine ⟨t, ht, ?_⟩
    rw [probe?, addressOf_down] at hprobe
    split at hprobe
    · exact (Option.some.inj hprobe).symm
    · cases hprobe
  · cases hlocate

end Loader

namespace Specifier

variable {extension base specifier : Text}

theorem unmarked_file (h : Text.Unmarked (partialFile extension specifier)) :
    Text.Unmarked (file extension base specifier) := by
  rw [file]
  split
  · exact h
  · have hdot : Text.Unmarked "./" := by decide
    exact ⟨fun hmem => (List.mem_append.mp hmem).elim hdot.1 h.1,
      fun hmem => (List.mem_append.mp hmem).elim hdot.2 h.2⟩

theorem partialFile_ne_nil : partialFile extension specifier ≠ [] := by
  rw [partialFile]
  split
  · rename_i h
    rintro rfl
    rw [hasExtension, Text.before?, List.take_nil] at h
    split at h
    · rename_i hstem
      split at hstem
      · cases hstem
        cases h
      · cases hstem
    · cases h
  · split <;> simp

theorem file_ne_nil : file extension base specifier ≠ [] := by
  rw [file]
  split
  · exact partialFile_ne_nil
  · simp

end Specifier

namespace Root

variable (root : Root) {extension : Text} {disk : Disk}

/-- The root itself is located as it is, if it is there. -/
theorem locate_nil (hroot : disk.has (Loader.pathOf root.path []) = true) :
    (Loader.disk root.path).locate disk [] = .ok ("file:" ++ down (root.segments ++ [[]])) := by
  have hpath : Loader.pathOf root.path [] = down (root.segments ++ [[]]) := by
    rw [Path.down_concat]
    exact Path.join_rooted root.counts rfl
  obtain ⟨more, hmore⟩ := Loader.exists_candidates root.path []
  rw [hpath] at hmore
  rw [hpath] at hroot
  rw [Loader.locate, hmore, List.findSome?_cons, Loader.probe?, hroot, if_pos rfl,
    Loader.addressOf_down]

/-- What is located for a normal name lies in the directory of the name. -/
theorem exists_of_locate (hroot : disk.has (Loader.pathOf root.path []) = true)
    {normal : List Text} (h : ∀ s ∈ normal, Counts s) {address : Text}
    (hlocate : (Loader.disk root.path).locate disk (Text.joinWith "/" normal) = .ok address) :
    ∃ front s, front <+: normal ∧ (∀ c ∈ s, ∃ t ∈ normal, c ∈ t) ∧
      address = "file:" ++ down (root.segments ++ front ++ [s]) := by
  cases normal using List.reverseRecOn with
  | nil =>
    refine ⟨[], [], List.prefix_rfl, by simp, ?_⟩
    rw [List.append_nil]
    exact Except.ok.inj (hlocate.symm.trans (root.locate_nil hroot))
  | append_singleton front s =>
    obtain ⟨t, ht, rfl⟩ := Loader.exists_of_locate root.counts h hlocate
    exact ⟨front, t, List.prefix_append _ _, fun c hc => ⟨s, by simp, ht hc⟩, rfl⟩

/-- No plugin is cut off where no segment holds its mark. -/
theorem ofAddress_down {segments : List Text} (h : ∀ t ∈ segments, Location.pluginMark ∉ t) :
    (Location.ofAddress ("file:" ++ down segments)).text = "file:" ++ down segments := by
  have hmark : Location.pluginMark ∉ ("file:" : Text) ++ down segments := by
    intro hmem
    rcases List.mem_append.mp hmem with hmem | hmem
    · exact absurd hmem (by decide)
    · rcases Path.mem_down hmem with heq | ⟨t, ht, hmem⟩
      · exact absurd heq (by decide)
      · exact h t ht hmem
  rw [Location.ofAddress, Text.cutAt?_of_not_mem hmark]

theorem isName_of_fetch {segments : List Text} {s raw : Text}
    (hslash : ∀ t ∈ segments ++ [s], '/' ∉ t)
    (hfetch : (Loader.disk root.path).fetch disk ("file:" ++ down (segments ++ [s])) = .ok raw) :
    IsName s := by
  rw [Loader.fetch, Text.after?_append, Option.getD_some] at hfetch
  cases hread : disk.readText (down (segments ++ [s])) with
  | ok raw => exact Disk.isName_of_readText hslash hread
  | error fault =>
    rw [hread] at hfetch
    cases hfetch

/-- What is located and read is a file with a normal path from the root. -/
theorem exists_sheet (hroot : disk.has (Loader.pathOf root.path []) = true)
    {normal : List Text} (hnormal : Normal normal) (h : ∀ s ∈ normal, Counts s ∧ Text.Unmarked s)
    {address raw : Text}
    (hlocate : (Loader.disk root.path).locate disk (Text.joinWith "/" normal) = .ok address)
    (hfetch : (Loader.disk root.path).fetch disk (Location.ofAddress address).text = .ok raw) :
    ∃ sheet : Sheet, (Location.ofAddress address).text = Loader.addressOf root.path sheet.path := by
  obtain ⟨front, s, ⟨more, rfl⟩, hs, rfl⟩ :=
    root.exists_of_locate hroot (fun s hs => (h s hs).1) hlocate
  have hnot : ∀ c : Char, (∀ t ∈ front ++ more, c ∉ t) → c ∉ s := fun c hc hmem =>
    have ⟨t, ht, hmem⟩ := hs c hmem
    hc t ht hmem
  have hwhole : ∀ t ∈ front ++ [s], '/' ∉ t ∧ Text.Unmarked t := by
    intro t ht
    rcases List.mem_append.mp ht with ht | ht
    · have ht := h t (List.mem_append_left _ ht)
      exact ⟨ht.1.2.2, ht.2⟩
    · obtain rfl := List.mem_singleton.mp ht
      exact ⟨hnot _ fun t ht => (h t ht).1.2.2, hnot _ fun t ht => (h t ht).2.1,
        hnot _ fun t ht => (h t ht).2.2⟩
  have hsegments : ∀ t ∈ root.segments ++ front ++ [s], '/' ∉ t ∧ Text.Unmarked t := by
    intro t ht
    rw [List.append_assoc] at ht
    rcases List.mem_append.mp ht with ht | ht
    · exact (root.names t ht).2
    · exact hwhole t ht
  rw [ofAddress_down fun t ht => (hsegments t ht).2.2] at hfetch ⊢
  have hname : IsName s := root.isName_of_fetch (fun t ht => (hsegments t ht).1) hfetch
  let sheet : Sheet := ⟨front, s, hnormal.of_append, hname, hwhole⟩
  refine ⟨sheet, ?_⟩
  have hpath : sheet.path = Text.joinWith "/" (front ++ [s]) := rfl
  rw [root.addressOf_eq sheet.isAbsolute_path, hpath, ← Path.down_cons_joinWith]
  simp

end Root

/-! ## Chains of imports -/

namespace Root

variable (root : Root) {extension : Text} {disk : Disk}

/-- What an import finds is a file with a normal path from the root. -/
theorem exists_sheet_of_find (hroot : disk.has (Loader.pathOf root.path []) = true) (sheet : Sheet)
    {specifier raw : Text} (hspecifier : Text.Unmarked (Specifier.partialFile extension specifier))
    {l : Location}
    (hfind : Library.find ⟨.disk root.path, extension, disk⟩ sheet.base
      (Specifier.file extension sheet.base specifier) = .ok l)
    (hfetch : Library.fetch ⟨.disk root.path, extension, disk⟩ l = .ok raw) :
    ∃ sheet' : Sheet, l.text = Loader.addressOf root.path sheet'.path := by
  have hfile : Text.Unmarked (Specifier.file extension sheet.base specifier) :=
    Specifier.unmarked_file hspecifier
  have hbase := sheet.unmarked_base
  rw [Library.find, Loader.normalize_disk Specifier.file_ne_nil] at hfind
  -- Joined or not, the name is spelled by segments of the base path and the file.
  obtain ⟨normal, hnormal, hsegments, hname⟩ :=
    Path.exists_resolve sheet.base (Specifier.file extension sheet.base specifier)
  have hunmarked : ∀ s ∈ normal, Counts s ∧ Text.Unmarked s := by
    intro s hs
    obtain ⟨hcounts, hsubset⟩ := hsegments s hs
    have hnot : ∀ c ∉ sheet.base, c ∉ Specifier.file extension sheet.base specifier → c ∉ s :=
      fun c hbase hfile hmem => (List.mem_append.mp (hsubset hmem)).elim hbase hfile
    exact ⟨hcounts, hnot _ hbase.1 hfile.1, hnot _ hbase.2 hfile.2⟩
  rw [hname] at hfind
  cases hlocate : (Loader.disk root.path).locate disk (Text.joinWith "/" normal) with
  | error fault =>
    simp only [bind, Except.bind, hlocate] at hfind
    cases hfind
  | ok address =>
    simp only [bind, Except.bind, hlocate, pure, Except.pure, Except.ok.injEq] at hfind
    subst hfind
    exact root.exists_sheet hroot hnormal hunmarked hlocate hfetch

/-- At the address of a file, imports are resolved in the directory of the file. -/
theorem resolves (hroot : disk.has (Loader.pathOf root.path []) = true) (sheet : Sheet) :
    root.Resolves ⟨.disk root.path, extension, disk⟩ (Loader.addressOf root.path sheet.path)
      sheet where
  stands := rfl
  base := sheet.base_address
  name {specifier i} hi hjoined := by
    have hform : NormalForm (sheet.directory ++
        Text.splitAtEach '/' (Specifier.partialFile extension specifier)) _ :=
      Path.normalForm_iff.mpr rfl
    rw [sheet.base_address] at hi hjoined
    subst hi
    refine ⟨_, hform, ?_⟩
    rw [Specifier.toImport, Library.base_ofParts sheet.unmarked_base.1,
      Loader.normalize_disk Specifier.file_ne_nil, sheet.resolve_file hjoined hform]
  located {specifier raw i l} hspecifier hi hfind hfetch := by
    rw [sheet.base_address] at hi
    subst hi
    rw [Specifier.toImport, Library.base_ofParts sheet.unmarked_base.1] at hfind
    obtain ⟨sheet', hsheet'⟩ := root.exists_sheet_of_find hroot sheet hspecifier hfind hfetch
    exact ⟨sheet', hsheet', hsheet' ▸ sheet'.base_address⟩

/-- Along a chain of imports, each import is resolved in the directory of the file that has it. -/
theorem imports_resolved (hroot : disk.has (Loader.pathOf root.path []) = true) (sheet : Sheet)
    {source address' source' : Text}
    (h : Library.Descends ⟨.disk root.path, extension, disk⟩ (Loader.addressOf root.path sheet.path)
      source address' source') :
    ∃ sheet' : Sheet, root.Resolves ⟨.disk root.path, extension, disk⟩ address' sheet' := by
  induction h with
  | refl => exact ⟨sheet, root.resolves hroot sheet⟩
  | step _ _ hi hspecifier hfind hfetch ih =>
    obtain ⟨sheet', hsheet'⟩ := ih
    obtain ⟨sheet'', hsheet'', -⟩ := hsheet'.located hspecifier hi hfind hfetch
    exact ⟨sheet'', hsheet'' ▸ root.resolves hroot sheet''⟩

section Nested

def nestedRoot : Root :=
  ⟨["r"], by decide⟩

def nestedEntry : Sheet :=
  ⟨["app"], "x.scss", by decide, by decide, by decide⟩

def nestedDisk : Disk :=
  ⟨[], [(["r"], .directory), (["r", "b"], .directory),
    (["r", "b", "_y.scss"], .file (Utf8.encode "@import \"z\";")),
    (["r", "b", "z.scss"], .file [])]⟩

def nestedLibrary : Library :=
  ⟨.disk nestedRoot.path, "scss", nestedDisk⟩

theorem descends_nested : nestedLibrary.Descends (Loader.addressOf nestedRoot.path nestedEntry.path)
    "@import \"../b/y\";" "file:/r/b/z.scss" [] := by
  have hfirst : nestedLibrary.Descends (Loader.addressOf nestedRoot.path nestedEntry.path)
      "@import \"../b/y\";" "file:/r/b/_y.scss" "@import \"z\";" :=
    .step (d := ⟨"../b/y", 0, 16⟩) (i := ⟨⟨"app/|../b/_y.scss"⟩, "../b/_y.scss"⟩)
      (l := ⟨"file:/r/b/_y.scss"⟩) .refl (by decide +kernel) (by decide +kernel) (by decide)
      (by rfl) (by rfl)
  exact .step (d := ⟨"z", 0, 11⟩) (i := ⟨⟨"b/|./_z.scss"⟩, "./_z.scss"⟩)
    (l := ⟨"file:/r/b/z.scss"⟩) hfirst (by decide +kernel) (by decide +kernel) (by decide)
    (by rfl) (by rfl)

/-- Two files down a chain, the second of them no partial, imports are resolved beside the last. -/
theorem imports_resolved_nested :
    nestedDisk.has (Loader.pathOf nestedRoot.path []) = true ∧
      ∃ sheet, nestedRoot.Resolves nestedLibrary "file:/r/b/z.scss" sheet :=
  ⟨by decide +kernel, nestedRoot.imports_resolved (by decide +kernel) nestedEntry descends_nested⟩

def rootEntry : Sheet :=
  ⟨[], "x.scss", by decide, by decide, by decide⟩

def bareRoot : Root :=
  ⟨["_r"], by decide⟩

/-- A root that is not there, and a file beside it. -/
def bareLibrary : Library :=
  ⟨.disk bareRoot.path, "", ⟨[], [(["r"], .file [])]⟩⟩

/-- An import that climbs above the root from a file in it stays in the root, where its normal form
leads to the directory above.  An import of a root that is not there finds a plain file beside it,
at an address that is not below the root. -/
theorem imports_stray :
    (Specifier.Joined "scss" rootEntry.base "../a" ∧
      nestedLibrary.loader.normalize (Specifier.file "scss" rootEntry.base "../a") rootEntry.base =
        .ok "_a.scss" ∧
      ∀ normal, NormalForm (rootEntry.directory ++
        Text.splitAtEach '/' (Specifier.partialFile "scss" "../a")) normal →
          Text.joinWith "/" normal = "../_a.scss") ∧
      bareLibrary.find rootEntry.base (Specifier.file "" rootEntry.base "..") =
        .ok ⟨"file:/r"⟩ ∧
      bareLibrary.fetch ⟨"file:/r"⟩ = .ok [] ∧
      ∀ sheet : Sheet, ("file:/r" : Text) ≠ Loader.addressOf bareRoot.path sheet.path := by
  refine ⟨⟨.inl (by decide), by rfl, fun normal h => ?_⟩, by rfl, by rfl, fun sheet h => ?_⟩
  · rw [Path.normalForm_iff.mp h]
    decide
  · rw [bareRoot.addressOf_eq sheet.isAbsolute_path] at h
    cases h

end Nested

end Root

end StyleBatch
