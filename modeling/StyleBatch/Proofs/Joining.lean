import StyleBatch.Proofs.Spellings

/-!
# Joined paths

A joined path is collapsed to one spelling: segments that count, `..` only in front and not behind
a slash in front.  The spelling says all that climbing has kept, so a collapsed path is collapsed to
itself, and two spellings of a base path that are collapsed alike lead every specifier to the same
place.

* `Path.collapsedSegments_collapse`: the segments are read off the path again.
* `Path.collapsedSegments_append`: behind a base path, climbing goes on from its segments.
* `Path.resolve_canonical`: what joining promises.
-/

namespace StyleBatch

namespace Path

variable {base base' path s : Text}

/-- A path with `.` and `..` worked out, with a slash in front or not. -/
def Canonical (absolute : Bool) (path : Text) : Prop :=
  ∃ normal, Normal normal ∧ (∀ s ∈ normal, Counts s) ∧ (absolute = true → (".." : Text) ∉ normal) ∧
    path = if absolute then '/' :: Text.joinWith "/" normal else Text.joinWith "/" normal

/-- Below the root slash there is nowhere to lead up to. -/
theorem isName_of_absolute (hpath : isAbsolute path = true) (hs : s ∈ collapsedSegments path) :
    IsName s := by
  cases path with
  | nil => cases hpath
  | cons c rest =>
    obtain rfl : c = '/' := by simpa [isAbsolute] using hpath
    have hform : NormalForm (Text.splitAtEach '/' rest) _ := normalForm_iff.mpr rfl
    rw [collapsedSegments_of_absolute hform] at hs
    exact hform.2 s hs

theorem counts_collapsedSegments (path : Text) : ∀ s ∈ collapsedSegments path, Counts s :=
  fun s hs => ((normal_collapsedSegments path).2 s hs).1

theorem canonical_collapse (path : Text) : Canonical (isAbsolute path) (collapse path) :=
  ⟨collapsedSegments path, (normal_collapsedSegments path).1, counts_collapsedSegments path,
    fun hpath hup => (isName_of_absolute hpath hup).2.2 rfl, rfl⟩

theorem isAbsolute_collapse (path : Text) : isAbsolute (collapse path) = isAbsolute path := by
  rw [collapse]
  split
  · rename_i hpath
    exact hpath.symm
  · rename_i hpath
    rw [isAbsolute_joinWith (counts_collapsedSegments path), Bool.eq_false_iff.mpr hpath]

/-- A collapsed path has the segments from which it is put together. -/
theorem collapsedSegments_collapse (path : Text) :
    collapsedSegments (collapse path) = collapsedSegments path := by
  rw [collapsedSegments, isAbsolute_collapse, foldl_climb_collapse]
  cases hpath : isAbsolute path with
  | false => rw [(normal_collapsedSegments path).1.foldl, List.reverse_reverse]
  | true =>
    rw [foldl_climb_names fun s hs => isName_of_absolute hpath hs, List.append_nil,
      List.reverse_reverse]

theorem collapse_collapse (path : Text) : collapse (collapse path) = collapse path := by
  rw [collapse, collapsedSegments_collapse, isAbsolute_collapse, ← collapse.eq_def]

theorem collapse_eq_iff : collapse base = collapse base' ↔
    isAbsolute base = isAbsolute base' ∧ collapsedSegments base = collapsedSegments base' := by
  constructor
  · intro h
    rw [← isAbsolute_collapse base, ← collapsedSegments_collapse base, h, isAbsolute_collapse,
      collapsedSegments_collapse]
    exact ⟨rfl, rfl⟩
  · rintro ⟨habsolute, hsegments⟩
    rw [collapse, collapse, habsolute, hsegments]

theorem isAbsolute_append_of_getLast? (hbase : base.getLast? = some '/') (t : Text) :
    isAbsolute (base ++ t) = isAbsolute base := by
  cases base with
  | nil => cases hbase
  | cons c base => rfl

/-- Behind a base path climbing goes on from the segments of the base path. -/
theorem collapsedSegments_append (hbase : base.getLast? = some '/') (t : Text) :
    collapsedSegments (base ++ t) = ((Text.splitAtEach '/' t).foldl (climb (isAbsolute base))
      (collapsedSegments base).reverse).reverse := by
  have hblank : Text.splitAtEach '/' [] = [[]] := rfl
  rw [collapsedSegments, isAbsolute_append_of_getLast? hbase, collapsedSegments]
  obtain ⟨directory, rfl⟩ := List.getLast?_eq_some_iff.mp hbase
  rw [List.append_assoc, List.singleton_append, Text.splitAtEach_middle, Text.splitAtEach_middle,
    List.foldl_append, List.foldl_append, hblank, List.foldl_cons, List.foldl_nil,
    climb_stay _ _ (.inl rfl), List.reverse_reverse]

/-- Two spellings of a base path lead to the same places. -/
theorem collapse_append (hbase : base.getLast? = some '/') (hbase' : base'.getLast? = some '/')
    (h : collapse base = collapse base') (t : Text) :
    collapse (base ++ t) = collapse (base' ++ t) := by
  obtain ⟨habsolute, hsegments⟩ := collapse_eq_iff.mp h
  rw [collapse_eq_iff, isAbsolute_append_of_getLast? hbase, isAbsolute_append_of_getLast? hbase',
    collapsedSegments_append hbase, collapsedSegments_append hbase', habsolute, hsegments]
  exact ⟨rfl, rfl⟩

theorem collapse_append_dot (hbase : base.getLast? = some '/') :
    collapse (base ++ "./") = collapse base := by
  have hsplit : Text.splitAtEach '/' "./" = [("." : Text), []] := by decide
  rw [collapse_eq_iff, isAbsolute_append_of_getLast? hbase, collapsedSegments_append hbase, hsplit,
    List.foldl_cons, List.foldl_cons, List.foldl_nil, climb_stay _ _ (.inl rfl),
    climb_stay _ _ (.inr rfl), List.reverse_reverse]
  exact ⟨rfl, rfl⟩

theorem resolve_eq (base specifier : Text) :
    resolve base specifier = collapse (joined base specifier) := rfl

theorem resolve_nil (specifier : Text) : resolve [] specifier = collapse specifier := by
  rw [resolve_eq, joined, List.nil_append, ite_self]

theorem resolve_relative {specifier : Text} (h : Specifier.isRelative specifier = true) :
    resolve base specifier = collapse (base ++ specifier) := by
  rw [resolve_eq, joined, if_pos h]

/-- What joining promises.  The joined path is canonical, absolute if the joined text is, and joined
to nothing it stays as it is.  Two spellings of a base path that are collapsed alike, and only such,
lead every specifier to the same path. -/
theorem resolve_canonical :
    (∀ base specifier, Canonical (isAbsolute (joined base specifier)) (resolve base specifier) ∧
      isAbsolute (resolve base specifier) = isAbsolute (joined base specifier) ∧
      resolve [] (resolve base specifier) = resolve base specifier) ∧
    ∀ base base' : Text, base.getLast? = some '/' → base'.getLast? = some '/' →
      (resolve [] base = resolve [] base' ↔
        ∀ specifier, resolve base specifier = resolve base' specifier) := by
  refine ⟨fun base specifier => ?_, fun base base' hbase hbase' => ?_⟩
  · rw [resolve_nil, resolve_eq]
    exact ⟨canonical_collapse _, isAbsolute_collapse _, collapse_collapse _⟩
  · rw [resolve_nil, resolve_nil]
    constructor
    · intro h specifier
      by_cases hrelative : Specifier.isRelative specifier = true
      · rw [resolve_relative hrelative, resolve_relative hrelative, collapse_append hbase hbase' h]
      · rw [resolve_eq, resolve_eq, joined, joined, if_neg hrelative, if_neg hrelative]
    · intro h
      have hdot := h "./"
      rwa [resolve_relative (by decide), resolve_relative (by decide), collapse_append_dot hbase,
        collapse_append_dot hbase'] at hdot

/-- A directory is spelled with a detour through another one. -/
theorem resolve_canonical_detour :
    resolve [] "a/./b/" = resolve [] "a/c//../b/" ∧
      ∀ specifier, resolve "a/./b/" specifier = resolve "a/c//../b/" specifier := by
  have hsame : resolve [] "a/./b/" = resolve [] "a/c//../b/" := by decide
  exact ⟨hsame, (resolve_canonical.2 "a/./b/" "a/c//../b/" (by decide) (by decide)).mp hsame⟩

end Path

end StyleBatch
