import Mathlib.Data.List.Induction
import StyleBatch.Path
import StyleBatch.Proofs.Text

/-!
# Paths from segments

A path that leads down from the root directory has a slash before each segment, one that begins
somewhere else has a slash between each two.  If no slash is in the segments they can be read off
the path again, and the last one is the file name.
-/

namespace StyleBatch

namespace Path

/-- The segments, each with a slash before it. -/
def down (segments : List Text) : Text :=
  segments.flatMap fun s => '/' :: s

/-- The segments, each with a slash behind it. -/
def below (segments : List Text) : Text :=
  segments.flatMap fun s => s ++ ['/']

/-- The path that leads from the root directory down the segments. -/
def rooted (segments : List Text) : Text :=
  if segments = [] then "/" else down segments

/-- A segment that counts: not blank, without a slash, and not `.`. -/
def Counts (s : Text) : Prop :=
  s ≠ [] ∧ s ≠ "." ∧ '/' ∉ s

instance (s : Text) : Decidable (Counts s) :=
  inferInstanceAs (Decidable (_ ∧ _))

variable {segments directory : List Text} {s t name : Text}

theorem down_concat (segments : List Text) (s : Text) :
    down (segments ++ [s]) = down segments ++ '/' :: s := by
  simp [down]

theorem mem_down {c : Char} (h : c ∈ down segments) : c = '/' ∨ ∃ s ∈ segments, c ∈ s := by
  obtain ⟨s, hs, hc⟩ := List.mem_flatMap.mp h
  exact (List.mem_cons.mp hc).imp_right fun hc => ⟨s, hs, hc⟩

theorem rooted_concat (segments : List Text) (s : Text) :
    rooted (segments ++ [s]) = down segments ++ '/' :: s := by
  rw [rooted, if_neg (by simp), down_concat]

theorem down_append (segments more : List Text) :
    down (segments ++ more) = down segments ++ down more :=
  List.flatMap_append

/-- It is the same slashes. -/
theorem cons_below (segments : List Text) (t : Text) :
    '/' :: (below segments ++ t) = down segments ++ '/' :: t := by
  induction segments with
  | nil => rfl
  | cons s segments ih =>
    have hdown : down (s :: segments) = '/' :: s ++ down segments := List.flatMap_cons
    have hbelow : below (s :: segments) = s ++ ['/'] ++ below segments := List.flatMap_cons
    rw [hdown, List.append_assoc, ← ih, hbelow]
    simp

theorem joinWith_concat (segments : List Text) (s : Text) :
    Text.joinWith "/" (segments ++ [s]) = below segments ++ s := by
  induction segments with
  | nil => rfl
  | cons t segments ih =>
    obtain ⟨next, rest, hnext⟩ : ∃ next rest, segments ++ [s] = next :: rest :=
      List.exists_cons_of_ne_nil (by simp)
    rw [List.cons_append, hnext, Text.joinWith, ← hnext, ih]
    · simp [below]
    · exact List.cons_ne_nil _ _

theorem down_cons_joinWith (segments front : List Text) (s : Text) :
    down segments ++ '/' :: Text.joinWith "/" (front ++ [s]) = down (segments ++ front ++ [s]) := by
  rw [joinWith_concat, cons_below, down_concat, down_append, List.append_assoc]

theorem splitAtEach_below (h : ∀ s ∈ segments, '/' ∉ s) (t : Text) :
    Text.splitAtEach '/' (below segments ++ t) = segments ++ Text.splitAtEach '/' t := by
  induction segments with
  | nil => rfl
  | cons s segments ih =>
    obtain ⟨hs, hsegments⟩ := List.forall_mem_cons.mp h
    rw [below, List.flatMap_cons, List.append_assoc, List.append_assoc, List.singleton_append,
      Text.splitAtEach_append hs, ← below, ih hsegments, List.cons_append]

theorem splitAtEach_down (h : ∀ s ∈ segments, '/' ∉ s) :
    Text.splitAtEach '/' (down segments) = [] :: segments := by
  induction segments using List.reverseRecOn with
  | nil => rfl
  | append_singleton segments s ih =>
    obtain ⟨hsegments, hs⟩ := List.forall_mem_append.mp h
    rw [down_concat, Text.splitAtEach_middle, ih hsegments,
      Text.splitAtEach_of_not_mem (hs s List.mem_cons_self), List.cons_append]

/-! ## The last segment -/

theorem dropBlankSegmentsRev_eq {t : Text} (hslash : ¬['/'] <+: t) (hdot : ¬['.', '/'] <+: t) :
    dropBlankSegmentsRev t = t := by
  rw [dropBlankSegmentsRev.eq_def]
  split
  · rfl
  · exact absurd (List.prefix_append ['/'] _) hslash
  · exact absurd (List.prefix_append ['.', '/'] _) hdot
  · rfl

/-- A path that ends in a segment that counts is not shortened. -/
theorem dropBlankSegments_eq (before : Text) (h : Counts s) :
    dropBlankSegments (before ++ '/' :: s) = before ++ '/' :: s := by
  obtain ⟨hne, hdot, hslash⟩ := h
  obtain ⟨c, back, hback⟩ := List.exists_cons_of_ne_nil (mt List.reverse_eq_nil_iff.mp hne)
  have hmem : ∀ d ∈ c :: back, d ≠ '/' := by
    rintro d hd rfl
    exact hslash (List.mem_reverse.mp (hback ▸ hd))
  obtain ⟨hc, hrest⟩ := List.forall_mem_cons.mp hmem
  rw [dropBlankSegments, List.reverse_append, List.reverse_cons, List.append_assoc, hback,
    List.cons_append, dropBlankSegmentsRev_eq, ← List.cons_append, ← hback, List.reverse_append,
    List.reverse_reverse, List.reverse_append, List.reverse_reverse, List.reverse_singleton,
    List.append_assoc, List.singleton_append]
  · intro hstarts
    exact hc (List.cons_prefix_cons.mp hstarts).1.symm
  · intro hstarts
    cases back with
    | nil =>
      have hs := congrArg List.reverse hback
      rw [List.reverse_reverse, ← (List.cons_prefix_cons.mp hstarts).1] at hs
      exact hdot hs
    | cons d back =>
      have hstarts : ['/'] <+: d :: (back ++ '/' :: before.reverse) :=
        (List.cons_prefix_cons.mp hstarts).2
      exact hrest d List.mem_cons_self (List.cons_prefix_cons.mp hstarts).1.symm

theorem splitLast?_eq {path before segment : Text} (hpath : dropBlankSegments path = path)
    (hroot : path ≠ "/") (hcut : Text.cutAtLast? '/' path = some (before, segment)) :
    splitLast? path = some (if before = [] then ['/'] else dropBlankSegments before, segment) := by
  rw [splitLast?.eq_def, hpath]
  split
  · cases hcut
  · exact absurd rfl hroot
  · rw [hcut]
    cases before <;> rfl

/-- A path is split before its last segment. -/
theorem splitLast?_down (h : ∀ t ∈ segments, Counts t) (hs : Counts s) :
    splitLast? (down (segments ++ [s])) = some (rooted segments, s) := by
  have hroot : down segments ++ '/' :: s ≠ "/" := by
    intro heq
    have hlength := congrArg List.length heq
    have hpos := List.length_pos_iff.mpr hs.1
    simp at hlength
    omega
  rw [down_concat,
    splitLast?_eq (dropBlankSegments_eq _ hs) hroot (Text.cutAtLast?_append _ hs.2.2)]
  cases segments using List.reverseRecOn with
  | nil => rfl
  | append_singleton front t =>
    rw [rooted_concat, if_neg (by simp [down_concat]), down_concat,
      dropBlankSegments_eq _ (h t (by simp))]

theorem fileName?_down (h : ∀ t ∈ segments, Counts t) (hs : Counts s) (hup : s ≠ "..") :
    fileName? (down (segments ++ [s])) = some s := by
  rw [fileName?, splitLast?_down h hs]
  exact if_neg (not_or.mpr ⟨hs.2.1, hup⟩)

theorem fileName?_down_up (h : ∀ t ∈ segments, Counts t) :
    fileName? (down (segments ++ [(".." : Text)])) = none := by
  rw [fileName?, splitLast?_down h (by decide)]
  rfl

/-- A relative path is put below a rooted one. -/
theorem join_rooted (h : ∀ t ∈ segments, Counts t) (hname : isAbsolute name = false) :
    join (rooted segments) name = down segments ++ '/' :: name := by
  rw [join, hname, if_neg Bool.false_ne_true]
  cases segments using List.reverseRecOn with
  | nil => rfl
  | append_singleton front s =>
    obtain ⟨hne, -, hslash⟩ := h s (by simp)
    have hlast : (down front ++ '/' :: s).getLast? ≠ some '/' := by
      intro hlast
      obtain ⟨front', c, rfl⟩ := (List.eq_nil_or_concat s).resolve_left hne
      rw [List.concat_eq_append, ← List.cons_append, ← List.append_assoc, List.getLast?_concat,
        Option.some_inj] at hlast
      exact hslash (by simp [hlast])
    have hneg : ¬((down front ++ '/' :: s).isEmpty ||
        (down front ++ '/' :: s).getLast? == some '/') = true := by
      simp only [Bool.or_eq_true, List.isEmpty_iff, beq_iff_eq, not_or]
      exact ⟨by simp, hlast⟩
    rw [rooted_concat, if_neg hneg, down_concat]

/-- The file name of a path is replaced. -/
theorem withFileName_down (h : ∀ t ∈ segments, Counts t) (hs : Counts s) (hup : s ≠ "..")
    (hname : isAbsolute name = false) :
    withFileName name (down (segments ++ [s])) = down (segments ++ [name]) := by
  rw [withFileName, fileName?_down h hs hup, parent?, splitLast?_down h hs,
    down_concat segments name, ← join_rooted h hname]
  rfl

theorem isAbsolute_of_not_mem (h : '/' ∉ s) : isAbsolute s = false := by
  cases s with
  | nil => rfl
  | cons c s =>
    have hc : c ≠ '/' := fun heq => h (heq ▸ List.mem_cons_self)
    simpa [isAbsolute] using hc

/-- A path that begins with a segment that counts is relative. -/
theorem isAbsolute_append (h : Counts s) (t : Text) : isAbsolute (s ++ t) = false := by
  obtain ⟨c, s, rfl⟩ := List.exists_cons_of_ne_nil h.1
  exact isAbsolute_of_not_mem (s := c :: s) h.2.2

theorem isAbsolute_joinWith (h : ∀ s ∈ segments, Counts s) :
    isAbsolute (Text.joinWith "/" segments) = false := by
  cases segments with
  | nil => rfl
  | cons s rest =>
    have hs := h s List.mem_cons_self
    cases rest with
    | nil => exact isAbsolute_of_not_mem hs.2.2
    | cons t rest =>
      rw [Text.joinWith, List.append_assoc]
      · exact isAbsolute_append hs _
      · exact List.cons_ne_nil _ _

/-! ## Rooted paths and their segments -/

theorem isAbsolute_rooted (segments : List Text) (t : Text) :
    isAbsolute (rooted segments ++ t) = true := by
  cases segments <;> rfl

theorem splitAtEach_joinWith (h : ∀ s ∈ segments, '/' ∉ s) (hne : segments ≠ []) :
    Text.splitAtEach '/' (Text.joinWith "/" segments) = segments := by
  cases segments using List.reverseRecOn with
  | nil => contradiction
  | append_singleton front s =>
    obtain ⟨hfront, hs⟩ := List.forall_mem_append.mp h
    rw [joinWith_concat, splitAtEach_below hfront,
      Text.splitAtEach_of_not_mem (hs s List.mem_cons_self)]

theorem cons_joinWith (segments : List Text) :
    '/' :: Text.joinWith "/" segments = rooted segments := by
  cases segments using List.reverseRecOn with
  | nil => rfl
  | append_singleton front s =>
    rw [joinWith_concat, cons_below, rooted_concat]

theorem mem_rooted_iff {c : Char} (hc : c ≠ '/') :
    c ∈ rooted segments ↔ ∃ s ∈ segments, c ∈ s := by
  rw [rooted]
  split
  · rename_i hnil
    simp [hnil, hc]
  · simp [down, hc]

theorem splitAtEach_rooted (h : ∀ s ∈ segments, '/' ∉ s) (hne : segments ≠ []) :
    Text.splitAtEach '/' (rooted segments) = [] :: segments := by
  rw [rooted, if_neg hne, splitAtEach_down h]

theorem down_inj {segments' : List Text} (h : ∀ s ∈ segments, '/' ∉ s)
    (h' : ∀ s ∈ segments', '/' ∉ s) (heq : down segments = down segments') :
    segments = segments' := by
  have hsplit := congrArg (Text.splitAtEach '/') heq
  rw [splitAtEach_down h, splitAtEach_down h'] at hsplit
  exact List.tail_eq_of_cons_eq hsplit

/-- The segments of a rooted path are its pieces that are not blank. -/
theorem filter_rooted (h : ∀ s ∈ segments, Counts s) :
    (Text.splitAtEach '/' (rooted segments)).filter (fun s => !s.isEmpty) = segments := by
  by_cases hne : segments = []
  · subst hne
    rfl
  · rw [splitAtEach_rooted (fun s hs => (h s hs).2.2) hne, List.filter_cons_of_neg (by simp),
      List.filter_eq_self]
    intro s hs
    simpa using (h s hs).1

theorem rooted_inj {segments' : List Text} (h : ∀ s ∈ segments, Counts s)
    (h' : ∀ s ∈ segments', Counts s) (heq : rooted segments = rooted segments') :
    segments = segments' := by
  rw [← filter_rooted h, heq, filter_rooted h']

/-- Only the root directory ends in a slash. -/
theorem eq_nil_of_getLast?_rooted (h : ∀ s ∈ segments, Counts s)
    (hlast : (Text.splitAtEach '/' (rooted segments)).getLast? = some []) : segments = [] := by
  cases segments using List.reverseRecOn with
  | nil => rfl
  | append_singleton front s =>
    rw [splitAtEach_rooted (fun s hs => (h s hs).2.2) (by simp), ← List.cons_append,
      List.getLast?_concat, Option.some_inj] at hlast
    exact absurd hlast (h s (by simp)).1

end Path

end StyleBatch
