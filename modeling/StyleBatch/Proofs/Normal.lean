import Mathlib.Data.List.TakeWhile
import Mathlib.Logic.Relation
import StyleBatch.Path.Collapse
import StyleBatch.Proofs.Path

/-!
# Lexically normal paths

Segments are normal if they are names with `..` only in front of them.  Any segments become normal
by taking out blank ones, `.`, and names together with the `..` that leaves them, in whatever order:
the normal form is one, and it is what `Path.climb` builds from the left.

* `Path.normalForm_iff`: the normal form is unique, and climbing builds it.
* `Path.collapse_of_relative`, `Path.collapse_of_absolute`: so a path is collapsed to its normal
  form, and an absolute one loses the leading `..`.
-/

namespace StyleBatch

namespace Path

/-- A segment that names a file or a directory. -/
def IsName (s : Text) : Prop :=
  s ≠ [] ∧ s ≠ "." ∧ s ≠ ".."

instance (s : Text) : Decidable (IsName s) :=
  inferInstanceAs (Decidable (_ ∧ _))

/-- Whether a segment leads up. -/
def isUp (s : Text) : Bool :=
  s = ".."

/-- Names, with `..` only in front of them. -/
def Normal (segments : List Text) : Prop :=
  ∀ s ∈ segments.dropWhile isUp, IsName s

instance (segments : List Text) : Decidable (Normal segments) :=
  List.decidableBAll IsName (segments.dropWhile isUp)

/-- Takes out a segment that leads nowhere, or a name together with the `..` that leaves it. -/
inductive Shortens : List Text → List Text → Prop
  | stay (before : List Text) {s : Text} (after : List Text) :
      s = [] ∨ s = "." → Shortens (before ++ s :: after) (before ++ after)
  | back (before : List Text) {s : Text} (after : List Text) :
      IsName s → Shortens (before ++ s :: (".." : Text) :: after) (before ++ after)

/-- Segments that are normal and come about by taking out others. -/
def NormalForm (segments normal : List Text) : Prop :=
  Relation.ReflTransGen Shortens segments normal ∧ Normal normal

variable {segments normal stack : List Text} {s : Text}

/-! ## Normal segments -/

theorem isUp_iff : isUp s = true ↔ s = ".." :=
  decide_eq_true_iff

theorem not_isUp_iff : (!isUp s) = true ↔ s ≠ ".." := by
  rw [Bool.not_eq_true', isUp, decide_eq_false_iff_not]

theorem normal_nil : Normal [] := by
  simp [Normal]

/-- A name may follow anything normal, `..` only other `..`. -/
theorem normal_concat :
    Normal (segments ++ [s]) ↔
      Normal segments ∧ (IsName s ∨ s = ".." ∧ ∀ t ∈ segments, t = "..") := by
  rw [Normal, List.dropWhile_append]
  by_cases hups : segments.dropWhile isUp = []
  · have hall : ∀ t ∈ segments, t = ".." :=
      fun t ht => isUp_iff.mp (List.dropWhile_eq_nil_iff.mp hups t ht)
    have hsegments : Normal segments := by
      rw [Normal, hups]
      exact fun _ h => absurd h List.not_mem_nil
    rw [hups, List.isEmpty_nil, if_pos rfl]
    by_cases hs : s = ".."
    · rw [List.dropWhile_cons_of_pos (isUp_iff.mpr hs)]
      exact ⟨fun _ => ⟨hsegments, .inr ⟨hs, hall⟩⟩, fun _ _ h => absurd h List.not_mem_nil⟩
    · rw [List.dropWhile_cons_of_neg (mt isUp_iff.mp hs), List.forall_mem_singleton]
      exact ⟨fun h => ⟨hsegments, .inl h⟩, fun h => h.2.resolve_right fun h => hs h.1⟩
  · have hnot : ¬∀ t ∈ segments, t = ".." := fun hall =>
      hups (List.dropWhile_eq_nil_iff.mpr fun t ht => isUp_iff.mpr (hall t ht))
    rw [if_neg (mt List.isEmpty_iff.mp hups), List.forall_mem_append, List.forall_mem_singleton]
    exact and_congr_right fun _ => ⟨.inl, fun h => h.resolve_right fun h => hnot h.2⟩

theorem Normal.eq_up_of_mem (h : Normal (segments ++ [(".." : Text)])) {t : Text}
    (ht : t ∈ segments) : t = ".." := by
  rcases (normal_concat.mp h).2 with h | ⟨-, h⟩
  · exact absurd rfl h.2.2
  · exact h t ht

theorem Normal.of_append {more : List Text} (h : Normal (segments ++ more)) : Normal segments := by
  induction more using List.reverseRecOn with
  | nil => rwa [List.append_nil] at h
  | append_singleton more s ih =>
    rw [← List.append_assoc] at h
    exact ih (normal_concat.mp h).1

/-! ## Climbing -/

theorem climb_stay (absolute : Bool) (stack : List Text) (h : s = [] ∨ s = ".") :
    climb absolute stack s = stack := by
  rw [climb.eq_def, if_pos h]

theorem climb_name (absolute : Bool) (stack : List Text) (h : IsName s) :
    climb absolute stack s = s :: stack := by
  rw [climb.eq_def, if_neg (not_or.mpr ⟨h.1, h.2.1⟩), if_neg h.2.2]

theorem climb_back (absolute : Bool) (stack : List Text) (h : s ≠ "..") :
    climb absolute (s :: stack) ".." = stack := by
  rw [climb.eq_def, if_neg (by decide), if_pos rfl]
  dsimp only
  rw [if_neg h]

theorem climb_up (stack : List Text) :
    climb false ((".." : Text) :: stack) ".." = (".." : Text) :: (".." : Text) :: stack := by
  rw [climb.eq_def, if_neg (by decide), if_pos rfl]
  rfl

/-- A further segment keeps the stack normal, and what comes of it comes about by taking out. -/
theorem normalForm_climb (h : Normal stack.reverse) (s : Text) :
    NormalForm (stack.reverse ++ [s]) (climb false stack s).reverse := by
  by_cases hstay : s = [] ∨ s = "."
  · rw [climb_stay false stack hstay]
    refine ⟨.single ?_, h⟩
    simpa using Shortens.stay stack.reverse [] hstay
  · by_cases hup : s = ".."
    · subst hup
      cases stack with
      | nil => exact ⟨.refl, by decide⟩
      | cons top rest =>
        rw [List.reverse_cons] at h
        by_cases htop : top = ".."
        · subst htop
          have hreverse : ((".." : Text) :: ".." :: rest).reverse =
              rest.reverse ++ [(".." : Text)] ++ [(".." : Text)] := by
            rw [List.reverse_cons, List.reverse_cons]
          rw [climb_up, hreverse, List.reverse_cons]
          refine ⟨.refl, normal_concat.mpr ⟨h, .inr ⟨rfl, ?_⟩⟩⟩
          intro t ht
          rcases List.mem_append.mp ht with ht | ht
          · exact h.eq_up_of_mem ht
          · exact List.mem_singleton.mp ht
        · obtain ⟨hrest, hname⟩ := normal_concat.mp h
          have hname : IsName top := hname.resolve_right fun ⟨heq, _⟩ => htop heq
          rw [climb_back false rest htop, List.reverse_cons]
          refine ⟨.single ?_, hrest⟩
          simpa using Shortens.back rest.reverse [] hname
    · have hname : IsName s := ⟨fun heq => hstay (.inl heq), fun heq => hstay (.inr heq), hup⟩
      rw [climb_name false stack hname, List.reverse_cons]
      exact ⟨.refl, normal_concat.mpr ⟨h, .inl hname⟩⟩

theorem Shortens.append {segments' : List Text} (h : Shortens segments segments')
    (more : List Text) : Shortens (segments ++ more) (segments' ++ more) := by
  cases h with
  | stay before after hs => simpa using Shortens.stay before (after ++ more) hs
  | back before after hs => simpa using Shortens.back before (after ++ more) hs

theorem normalForm_foldl (h : Normal stack.reverse) (segments : List Text) :
    NormalForm (stack.reverse ++ segments) (segments.foldl (climb false) stack).reverse := by
  induction segments generalizing stack with
  | nil => exact ⟨by simpa using Relation.ReflTransGen.refl, h⟩
  | cons s segments ih =>
    obtain ⟨hshort, hnormal⟩ := normalForm_climb h s
    have hstart : Relation.ReflTransGen Shortens (stack.reverse ++ s :: segments)
        ((climb false stack s).reverse ++ segments) := by
      rw [List.append_cons]
      exact hshort.lift (fun front => front ++ segments) fun _ _ h => h.append segments
    exact ⟨hstart.trans (ih hnormal).1, (ih hnormal).2⟩

/-- What is taken out does not matter for the stack. -/
theorem Shortens.foldl {segments' : List Text} (h : Shortens segments segments')
    (stack : List Text) :
    segments.foldl (climb false) stack = segments'.foldl (climb false) stack := by
  cases h with
  | stay before after hs =>
    rw [List.foldl_append, List.foldl_cons, climb_stay _ _ hs, ← List.foldl_append]
  | back before after hs =>
    rw [List.foldl_append, List.foldl_cons, List.foldl_cons, climb_name _ _ hs,
      climb_back _ _ hs.2.2, ← List.foldl_append]

theorem foldl_of_shortened (h : Relation.ReflTransGen Shortens segments normal)
    (stack : List Text) :
    segments.foldl (climb false) stack = normal.foldl (climb false) stack := by
  induction h with
  | refl => rfl
  | tail _ hstep ih => rw [ih, hstep.foldl]

/-- Normal segments stay as they are. -/
theorem Normal.foldl (h : Normal normal) : normal.foldl (climb false) [] = normal.reverse := by
  induction normal using List.reverseRecOn with
  | nil => rfl
  | append_singleton front s ih =>
    obtain ⟨hfront, hs⟩ := normal_concat.mp h
    rw [List.foldl_append, ih hfront, List.foldl_cons, List.foldl_nil, List.reverse_append,
      List.reverse_singleton, List.singleton_append]
    rcases hs with hs | ⟨rfl, hups⟩
    · exact climb_name _ _ hs
    · cases hback : front.reverse with
      | nil => rfl
      | cons top rest =>
        have htop : top = ".." := hups top (List.mem_reverse.mp (hback ▸ List.mem_cons_self))
        rw [htop]
        exact climb_up rest

/-- There is one normal form, and climbing builds it. -/
theorem normalForm_iff :
    NormalForm segments normal ↔ normal = (segments.foldl (climb false) []).reverse := by
  constructor
  · rintro ⟨hshort, hnormal⟩
    rw [foldl_of_shortened hshort, hnormal.foldl, List.reverse_reverse]
  · rintro rfl
    exact @normalForm_foldl [] normal_nil segments

theorem NormalForm.unique {normal' : List Text} (h : NormalForm segments normal)
    (h' : NormalForm segments normal') : normal = normal' := by
  rw [normalForm_iff.mp h, normalForm_iff.mp h']

/-- Only segments that were there are in the normal form. -/
theorem NormalForm.mem (h : NormalForm segments normal) (hs : s ∈ normal) : s ∈ segments := by
  induction h.1 using Relation.ReflTransGen.head_induction_on with
  | refl => exact hs
  | head hstep hshort ih =>
    have hmem := ih ⟨hshort, h.2⟩
    cases hstep with
    | stay before after _ =>
      rw [List.mem_append, List.mem_cons]
      exact (List.mem_append.mp hmem).imp_right .inr
    | back before after _ =>
      rw [List.mem_append, List.mem_cons, List.mem_cons]
      exact (List.mem_append.mp hmem).imp_right fun h => .inr (.inr h)

/-- A `.` in between changes nothing. -/
theorem normalForm_dot {front back : List Text} :
    NormalForm (front ++ ("." : Text) :: back) normal ↔ NormalForm (front ++ back) normal := by
  rw [normalForm_iff, normalForm_iff, (Shortens.stay front back (.inr rfl)).foldl]

/-! ## Below the root slash -/

/-- The part of a stack above its `..`. -/
def above (stack : List Text) : List Text :=
  stack.takeWhile fun s => !isUp s

theorem above_up (rest : List Text) : above ((".." : Text) :: rest) = [] :=
  rfl

theorem above_cons (h : s ≠ "..") (rest : List Text) : above (s :: rest) = s :: above rest :=
  List.takeWhile_cons_of_pos (not_isUp_iff.mpr h)

/-- An absolute stack is the part of the relative one above its `..`. -/
theorem climb_above (stack : List Text) (s : Text) :
    climb true (above stack) s = above (climb false stack s) := by
  by_cases hstay : s = [] ∨ s = "."
  · rw [climb_stay _ _ hstay, climb_stay _ _ hstay]
  · by_cases hup : s = ".."
    · subst hup
      cases stack with
      | nil => rfl
      | cons top rest =>
        by_cases htop : top = ".."
        · subst htop
          rw [climb_up, above_up, above_up]
          rfl
        · rw [climb_back _ _ htop, above_cons htop, climb_back _ _ htop]
    · have hname : IsName s := ⟨fun heq => hstay (.inl heq), fun heq => hstay (.inr heq), hup⟩
      rw [climb_name _ _ hname, climb_name _ _ hname, above_cons hup]

theorem foldl_climb_above (segments stack : List Text) :
    segments.foldl (climb true) (above stack) = above (segments.foldl (climb false) stack) := by
  induction segments generalizing stack with
  | nil => rfl
  | cons s segments ih => rw [List.foldl_cons, climb_above, ih, List.foldl_cons]

/-- Of normal segments, the names are those behind the `..`. -/
theorem Normal.above_reverse (h : Normal normal) :
    (above normal.reverse).reverse = normal.dropWhile isUp := by
  have hups : ∀ s ∈ (normal.takeWhile isUp).reverse, isUp s = true :=
    fun s hs => List.mem_takeWhile_imp (List.mem_reverse.mp hs)
  have hnames : ∀ s ∈ (normal.dropWhile isUp).reverse, (!isUp s) = true :=
    fun s hs => not_isUp_iff.mpr (h s (List.mem_reverse.mp hs)).2.2
  conv_lhs => rw [← List.takeWhile_append_dropWhile (p := isUp) (l := normal)]
  rw [above, List.reverse_append, List.takeWhile_append_of_pos hnames]
  cases hback : (normal.takeWhile isUp).reverse with
  | nil => rw [List.takeWhile_nil, List.append_nil, List.reverse_reverse]
  | cons top rest =>
    have htop : isUp top = true := hups top (hback ▸ List.mem_cons_self)
    rw [List.takeWhile_cons_of_neg (by simp [htop]), List.append_nil, List.reverse_reverse]

/-- Below the root slash the normal form loses its leading `..`. -/
theorem NormalForm.absolute (h : NormalForm segments normal) :
    (segments.foldl (climb true) []).reverse = normal.dropWhile isUp := by
  have hfold : segments.foldl (climb true) [] = above (segments.foldl (climb false) []) :=
    foldl_climb_above segments []
  rw [hfold, ← h.2.above_reverse, normalForm_iff.mp h, List.reverse_reverse]

/-! ## Paths -/

theorem Normal.counts (h : Normal segments) (hs : s ∈ segments) (hslash : '/' ∉ s) : Counts s := by
  rw [← List.takeWhile_append_dropWhile (p := isUp) (l := segments), List.mem_append] at hs
  rcases hs with hs | hs
  · rw [isUp_iff.mp (List.mem_takeWhile_imp hs)]
    decide
  · exact ⟨(h s hs).1, (h s hs).2.1, hslash⟩

theorem Normal.dropWhile (h : Normal segments) : Normal (segments.dropWhile isUp) :=
  fun s hs => h s (List.dropWhile_subset _ hs)

/-- No slash stands in front of segments that count. -/
theorem dropWhile_joinWith (h : ∀ s ∈ segments, Counts s) :
    (Text.joinWith "/" segments).dropWhile (· == '/') = Text.joinWith "/" segments := by
  cases segments with
  | nil => rfl
  | cons s rest =>
    obtain ⟨hne, -, hslash⟩ := h s List.mem_cons_self
    obtain ⟨c, s, rfl⟩ := List.exists_cons_of_ne_nil hne
    have hc : c ≠ '/' := fun heq => hslash (heq ▸ List.mem_cons_self)
    cases rest <;> exact List.dropWhile_cons_of_neg (by simpa using hc)

theorem normalForm_of_relative {path : Text} (hpath : isAbsolute path = false) :
    NormalForm (Text.splitAtEach '/' path) (collapsedSegments path) := by
  rw [normalForm_iff, collapsedSegments, hpath]

theorem collapsedSegments_of_absolute {path : Text}
    (h : NormalForm (Text.splitAtEach '/' path) normal) :
    collapsedSegments ('/' :: path) = normal.dropWhile isUp := by
  have hpath : isAbsolute ('/' :: path) = true := rfl
  have hsplit : Text.splitAtEach '/' ('/' :: path) = [] :: Text.splitAtEach '/' path := rfl
  rw [collapsedSegments, hpath, hsplit, List.foldl_cons, climb_stay _ _ (.inl rfl), h.absolute]

theorem collapse_of_relative {path : Text} (hpath : isAbsolute path = false)
    (h : NormalForm (Text.splitAtEach '/' path) normal) :
    collapse path = Text.joinWith "/" normal := by
  rw [collapse, hpath, (normalForm_of_relative hpath).unique h]
  rfl

theorem collapse_of_absolute {path : Text} (h : NormalForm (Text.splitAtEach '/' path) normal) :
    collapse ('/' :: path) = '/' :: Text.joinWith "/" (normal.dropWhile isUp) := by
  rw [collapse, collapsedSegments_of_absolute h]
  rfl

/-- Collapsed segments are normal, and they are some of the path's own. -/
theorem normal_collapsedSegments (path : Text) : Normal (collapsedSegments path) ∧
    ∀ s ∈ collapsedSegments path, Counts s ∧ s ⊆ path := by
  have hpieces : ∀ {t : Text} {normal}, NormalForm (Text.splitAtEach '/' t) normal →
      ∀ s ∈ normal, Counts s ∧ s ⊆ t := fun h s hs =>
    have hs' := Text.mem_of_mem_splitAtEach (h.mem hs)
    ⟨h.2.counts hs hs'.1, hs'.2⟩
  by_cases hpath : isAbsolute path = true
  · obtain ⟨rest, rfl⟩ : ∃ rest, path = '/' :: rest := by
      cases path with
      | nil => cases hpath
      | cons c rest => exact ⟨rest, by rw [show c = '/' by simpa [isAbsolute] using hpath]⟩
    have hform : NormalForm (Text.splitAtEach '/' rest) _ := normalForm_iff.mpr rfl
    rw [collapsedSegments_of_absolute hform]
    refine ⟨hform.2.dropWhile, fun s hs => ?_⟩
    obtain ⟨hcounts, hsubset⟩ := hpieces hform s (List.dropWhile_subset _ hs)
    exact ⟨hcounts, List.subset_cons_of_subset _ hsubset⟩
  · have hform := normalForm_of_relative (by simpa using hpath)
    exact ⟨hform.2, hpieces hform⟩

/-- A collapsed path without the slash in front is its segments with slashes between. -/
theorem dropWhile_collapse (path : Text) :
    (collapse path).dropWhile (· == '/') = Text.joinWith "/" (collapsedSegments path) := by
  have hcounts : ∀ s ∈ collapsedSegments path, Counts s := fun s hs =>
    ((normal_collapsedSegments path).2 s hs).1
  rw [collapse]
  split
  · rw [List.dropWhile_cons_of_pos (by decide), dropWhile_joinWith hcounts]
  · rw [dropWhile_joinWith hcounts]

/-- A path without the slashes in front is spelled by normal segments, which are some of its own. -/
theorem exists_collapse (path : Text) : ∃ normal, Normal normal ∧
    (∀ s ∈ normal, Counts s ∧ s ⊆ path) ∧
      (collapse path).dropWhile (· == '/') = Text.joinWith "/" normal :=
  ⟨collapsedSegments path, (normal_collapsedSegments path).1, (normal_collapsedSegments path).2,
    dropWhile_collapse path⟩

/-- So is a path from a base path, joined to it or not. -/
theorem exists_resolve (base file : Text) : ∃ normal, Normal normal ∧
    (∀ s ∈ normal, Counts s ∧ s ⊆ base ++ file) ∧
      (resolve base file).dropWhile (· == '/') = Text.joinWith "/" normal := by
  rw [resolve]
  split
  · exact exists_collapse _
  · obtain ⟨normal, hnormal, hsegments, hname⟩ := exists_collapse file
    refine ⟨normal, hnormal, fun s hs => ⟨(hsegments s hs).1, fun c hc => ?_⟩, hname⟩
    exact List.mem_append_right _ ((hsegments s hs).2 hc)

end Path

end StyleBatch
