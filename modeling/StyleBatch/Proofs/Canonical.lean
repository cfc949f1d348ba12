import StyleBatch.Proofs.Directories

/-!
# Canonical files

The file that a specifier means ends in the extension and is relative or begins with the base path.
None of the rules that make it applies to it a second time: its end keeps it from being taken for a
partial again, and its start from getting another `./`.  So a specifier, its file, and a specifier
with `./` in front, if it would get one anyway, have one key.

* `Specifier.hasExtension_iff`: the extension and its dot, read from the right.
* `Specifier.file_of_suffix`: a file that the rules leave alone.
* `Specifier.partialFile_dot`: a `./` in front is no matter for the last segment.
* `Specifier.toImport_canonical`: the spellings of an import.
-/

namespace StyleBatch

namespace Text

theorem before?_append (t ending : Text) : before? ending (t ++ ending) = some t := by
  rw [before?, if_pos (List.isSuffixOf_iff_suffix.mpr (List.suffix_append _ _)),
    List.length_append, Nat.add_sub_cancel, List.take_left]

theorem before?_of_not_suffix {ending t : Text} (h : ¬ending <:+ t) : before? ending t = none := by
  rw [before?, if_neg (mt List.isSuffixOf_iff_suffix.mp h)]

end Text

namespace Specifier

variable {extension base specifier path : Text}

theorem hasExtension_iff :
    hasExtension extension specifier = true ↔ '.' :: extension <:+ specifier := by
  by_cases h : extension <:+ specifier
  · obtain ⟨stem, rfl⟩ := h
    rw [hasExtension, Text.before?_append, beq_iff_eq, List.getLast?_eq_some_iff]
    refine exists_congr fun front => ?_
    rw [List.append_cons front '.' extension, List.append_left_inj, eq_comm]
  · have hdot : ¬ '.' :: extension <:+ specifier :=
      fun hdot => h ((List.suffix_cons _ _).trans hdot)
    rw [hasExtension, Text.before?_of_not_suffix h]
    exact iff_of_false Bool.false_ne_true hdot

/-- A path that keeps its start: it is relative, or begins with the base path. -/
def Anchored (base path : Text) : Prop :=
  isRelative path = true ∨ base <+: path

theorem anchored_iff : Anchored base path ↔ (isRelative path || base.isPrefixOf path) = true := by
  rw [Anchored, Bool.or_eq_true, List.isPrefixOf_iff_prefix]

theorem suffix_partialFile (extension specifier : Text) :
    '.' :: extension <:+ partialFile extension specifier := by
  rw [partialFile]
  split
  · rename_i h
    exact hasExtension_iff.mp h
  · split
    · rename_i directory name _
      exact ⟨directory ++ "/_" ++ name, by simp⟩
    · exact ⟨"_" ++ specifier, by simp⟩

theorem partialFile_of_suffix (h : '.' :: extension <:+ path) :
    partialFile extension path = path := by
  rw [partialFile, if_pos (hasExtension_iff.mpr h)]

theorem file_of_anchored (h : Anchored base (partialFile extension specifier)) :
    file extension base specifier = partialFile extension specifier := by
  rw [file, if_pos (anchored_iff.mp h)]

theorem file_of_not_anchored (h : ¬Anchored base (partialFile extension specifier)) :
    file extension base specifier = "./" ++ partialFile extension specifier := by
  rw [file, if_neg (mt anchored_iff.mpr h)]

theorem suffix_file (extension base specifier : Text) :
    '.' :: extension <:+ file extension base specifier := by
  by_cases h : Anchored base (partialFile extension specifier)
  · rw [file_of_anchored h]
    exact suffix_partialFile extension specifier
  · rw [file_of_not_anchored h]
    exact (suffix_partialFile extension specifier).trans (List.suffix_append _ _)

theorem anchored_file (extension base specifier : Text) :
    Anchored base (file extension base specifier) := by
  by_cases h : Anchored base (partialFile extension specifier)
  · rwa [file_of_anchored h]
  · rw [file_of_not_anchored h]
    exact .inl (Sheet.isRelative_dot _)

/-- A file that the rules leave alone. -/
theorem file_of_suffix (hsuffix : '.' :: extension <:+ path) (h : Anchored base path) :
    file extension base path = path := by
  have hpartial := partialFile_of_suffix hsuffix
  rw [file_of_anchored (hpartial.symm ▸ h), hpartial]

/-- With a slash in the extension, `./` could be the start of what ends the specifier. -/
theorem suffix_dot_iff (h : '/' ∉ extension) :
    '.' :: extension <:+ "./" ++ specifier ↔ '.' :: extension <:+ specifier := by
  refine ⟨fun hsuffix => ?_, fun hsuffix => hsuffix.trans (List.suffix_append _ _)⟩
  rcases List.suffix_cons_iff.mp hsuffix with heq | hsuffix
  · exact absurd ((List.cons.inj heq).2 ▸ List.mem_cons_self) h
  · rcases List.suffix_cons_iff.mp hsuffix with heq | hsuffix
    · exact absurd (List.cons.inj heq).1 (by decide)
    · exact hsuffix

/-- A `./` in front is no matter for the last segment. -/
theorem partialFile_dot (h : '/' ∉ extension) :
    partialFile extension ("./" ++ specifier) = "./" ++ partialFile extension specifier := by
  by_cases hsuffix : '.' :: extension <:+ specifier
  · rw [partialFile_of_suffix hsuffix, partialFile_of_suffix ((suffix_dot_iff h).mpr hsuffix)]
  · have hdot := mt (suffix_dot_iff h).mp hsuffix
    rw [partialFile, partialFile, if_neg (mt hasExtension_iff.mp hsuffix),
      if_neg (mt hasExtension_iff.mp hdot)]
    cases hcut : Text.cutAtLast? '/' specifier with
    | none =>
      have hfront : Text.cutAtLast? '/' ("./" ++ specifier) = some (['.'], specifier) := by
        simp [Text.cutAtLast?, hcut]
      rw [hfront]
      rfl
    | some pieces =>
      obtain ⟨directory, name⟩ := pieces
      have hfront : Text.cutAtLast? '/' ("./" ++ specifier) = some ("./" ++ directory, name) := by
        simp [Text.cutAtLast?, hcut]
      rw [hfront]
      simp

/-- A specifier with `./` in front means the same file exactly if the file gets a `./`. -/
theorem file_dot_iff (h : '/' ∉ extension) :
    file extension base ("./" ++ specifier) = file extension base specifier ↔
      ¬Anchored base (partialFile extension specifier) := by
  have hdot : Anchored base (partialFile extension ("./" ++ specifier)) := by
    rw [partialFile_dot h]
    exact .inl (Sheet.isRelative_dot _)
  rw [file_of_anchored hdot, partialFile_dot h]
  constructor
  · intro heq hanchored
    rw [file_of_anchored hanchored] at heq
    have hlength := congrArg List.length heq
    simp only [List.length_append, String.length_toList, Nat.add_eq_right] at hlength
    exact absurd hlength (by decide)
  · intro hnot
    rw [file_of_not_anchored hnot]

theorem toImport_eq_iff {specifier' : Text} :
    toImport extension base specifier = toImport extension base specifier' ↔
      file extension base specifier = file extension base specifier' := by
  refine ⟨fun h => congrArg Import.file h, fun h => ?_⟩
  rw [toImport, toImport, h]

/-- The spellings of an import.  A file means itself; it ends in the extension and is relative or
begins with the base path; and a specifier with `./` in front means the same as without, exactly if
what it means as a partial is neither relative nor begins with the base path. -/
theorem toImport_canonical (extension base specifier : Text) :
    toImport extension base (file extension base specifier) = toImport extension base specifier ∧
      '.' :: extension <:+ file extension base specifier ∧
      Anchored base (file extension base specifier) ∧
      ('/' ∉ extension →
        (toImport extension base ("./" ++ specifier) = toImport extension base specifier ↔
          ¬Anchored base (partialFile extension specifier))) := by
  have hsuffix := suffix_file extension base specifier
  have hanchored := anchored_file extension base specifier
  refine ⟨?_, hsuffix, hanchored, fun h => ?_⟩
  · rw [toImport_eq_iff, file_of_suffix hsuffix hanchored]
  · rw [toImport_eq_iff, file_dot_iff h]

/-- Three spellings of one partial. -/
theorem toImport_canonical_partial : '/' ∉ ("scss" : Text) ∧
    ¬Anchored "styles/" (partialFile "scss" "mixins/grid") ∧
    toImport "scss" "styles/" "./mixins/grid" = toImport "scss" "styles/" "mixins/grid" ∧
    toImport "scss" "styles/" "./mixins/_grid.scss" = toImport "scss" "styles/" "mixins/grid" := by
  have hslash : '/' ∉ ("scss" : Text) := by decide
  have hnot : ¬Anchored "styles/" (partialFile "scss" "mixins/grid") := by
    rw [anchored_iff]
    decide
  obtain ⟨hfile, -, -, hdot⟩ := toImport_canonical "scss" "styles/" "mixins/grid"
  exact ⟨hslash, hnot, (hdot hslash).mpr hnot, hfile⟩

end Specifier

end StyleBatch
