import StyleBatch.Address

/-!
# Cutting texts

What the cutting functions return puts the text together again: `eq_of_cut?`,
`eq_of_cutAtLast?`.  So no cut invents a character, and `Address.mem_base` says which
characters a base path has.  `splitAtEach_append` cuts one piece off a text.
-/

namespace StyleBatch

namespace Text

theorem eq_of_isPrefixOf {mark t : Text} (h : mark.isPrefixOf t = true) :
    t = mark ++ t.drop mark.length := by
  obtain ⟨rest, rfl⟩ := List.isPrefixOf_iff_prefix.mp h
  simp

theorem eq_of_cut? {mark t before after : Text} (h : cut? mark t = some (before, after)) :
    t = before ++ mark ++ after := by
  induction t generalizing before after with
  | nil =>
    rw [cut?] at h
    split at h
    · rename_i hmark
      cases h
      simpa using hmark.symm
    · cases h
  | cons c rest ih =>
    rw [cut?] at h
    split at h
    · rename_i hmark
      cases h
      simpa using eq_of_isPrefixOf hmark
    · obtain ⟨⟨before', after'⟩, hrest, hpieces⟩ := Option.map_eq_some_iff.mp h
      cases hpieces
      rw [ih hrest]
      simp

/-- The first `c` is where a text without `c` ends. -/
theorem cutAt?_append {c : Char} {before : Text} (h : c ∉ before) (after : Text) :
    cutAt? c (before ++ c :: after) = some (before, after) := by
  induction before with
  | nil => simp [cutAt?]
  | cons d rest ih =>
    simp only [List.mem_cons, not_or] at h
    simp [cutAt?, Ne.symm h.1, ih h.2]

theorem cutAt?_of_not_mem {c : Char} {t : Text} (h : c ∉ t) : cutAt? c t = none := by
  induction t with
  | nil => rfl
  | cons d t ih =>
    simp only [List.mem_cons, not_or] at h
    rw [cutAt?, if_neg (Ne.symm h.1), ih h.2, Option.map_none]

theorem eq_of_cutAtLast? {c : Char} {t before after : Text}
    (h : cutAtLast? c t = some (before, after)) : t = before ++ c :: after := by
  induction t generalizing before after with
  | nil => cases h
  | cons d rest ih =>
    rw [cutAtLast?] at h
    cases hrest : cutAtLast? c rest with
    | some pieces =>
      obtain ⟨before', after'⟩ := pieces
      rw [hrest] at h
      cases h
      rw [ih hrest]
      rfl
    | none =>
      rw [hrest] at h
      simp only at h
      split at h
      · rename_i hd
        cases h
        rw [hd]
        rfl
      · cases h

theorem after?_append (start rest : Text) : after? start (start ++ rest) = some rest := by
  rw [after?, if_pos (List.isPrefixOf_iff_prefix.mpr (List.prefix_append _ _)), List.drop_left]

theorem eq_of_after? {start t rest : Text} (h : after? start t = some rest) :
    t = start ++ rest := by
  rw [after?] at h
  split at h
  · rename_i hstart
    cases h
    exact eq_of_isPrefixOf hstart
  · cases h

/-- No `c` stands behind the last one. -/
theorem cutAtLast?_of_not_mem {c : Char} {t : Text} (h : c ∉ t) : cutAtLast? c t = none := by
  induction t with
  | nil => rfl
  | cons d t ih =>
    simp only [List.mem_cons, not_or] at h
    rw [cutAtLast?, ih h.2]
    exact if_neg (Ne.symm h.1)

theorem cutAtLast?_append {c : Char} (before : Text) {after : Text} (h : c ∉ after) :
    cutAtLast? c (before ++ c :: after) = some (before, after) := by
  induction before with
  | nil =>
    rw [List.nil_append, cutAtLast?, cutAtLast?_of_not_mem h]
    exact if_pos rfl
  | cons d before ih => rw [List.cons_append, cutAtLast?, ih]

/-- There is at least one piece. -/
theorem splitAtEach_ne_nil (c : Char) (t : Text) : splitAtEach c t ≠ [] := by
  induction t with
  | nil => exact List.cons_ne_nil _ _
  | cons d t ih =>
    rw [splitAtEach]
    split
    · exact List.cons_ne_nil _ _
    · obtain ⟨piece, pieces, hpieces⟩ := List.exists_cons_of_ne_nil ih
      rw [hpieces]
      exact List.cons_ne_nil _ _

/-- What stands before and behind a `c` is split apart. -/
theorem splitAtEach_middle (c : Char) (before after : Text) :
    splitAtEach c (before ++ c :: after) = splitAtEach c before ++ splitAtEach c after := by
  induction before with
  | nil => simp [splitAtEach]
  | cons d before ih =>
    rw [List.cons_append, splitAtEach, splitAtEach, ih]
    split
    · rfl
    · obtain ⟨piece, pieces, hpieces⟩ := List.exists_cons_of_ne_nil (splitAtEach_ne_nil c before)
      rw [hpieces]
      rfl

/-- A text without `c` is one piece. -/
theorem splitAtEach_of_not_mem {c : Char} {t : Text} (h : c ∉ t) : splitAtEach c t = [t] := by
  induction t with
  | nil => rfl
  | cons d t ih =>
    simp only [List.mem_cons, not_or] at h
    rw [splitAtEach, if_neg (Ne.symm h.1), ih h.2]

/-- A piece is cut off at the first `c`. -/
theorem splitAtEach_append {c : Char} {piece : Text} (h : c ∉ piece) (rest : Text) :
    splitAtEach c (piece ++ c :: rest) = piece :: splitAtEach c rest := by
  rw [splitAtEach_middle, splitAtEach_of_not_mem h, List.singleton_append]

/-- Pieces are cut out of the text, and no `c` is in them. -/
theorem mem_of_mem_splitAtEach {c : Char} {t piece : Text} (h : piece ∈ splitAtEach c t) :
    c ∉ piece ∧ piece ⊆ t := by
  induction t generalizing piece with
  | nil =>
    obtain rfl := List.mem_singleton.mp h
    exact ⟨List.not_mem_nil, List.Subset.refl _⟩
  | cons d t ih =>
    rw [splitAtEach] at h
    split at h
    · rcases List.mem_cons.mp h with rfl | h
      · exact ⟨List.not_mem_nil, List.nil_subset _⟩
      · exact ⟨(ih h).1, List.subset_cons_of_subset _ (ih h).2⟩
    · rename_i hd
      cases hpieces : splitAtEach c t with
      | nil =>
        rw [hpieces] at h
        obtain rfl := List.mem_singleton.mp h
        exact ⟨by simpa using Ne.symm hd, by simp⟩
      | cons first pieces =>
        rw [hpieces] at h ih
        rcases List.mem_cons.mp h with rfl | h
        · obtain ⟨hfirst, hsubset⟩ := ih List.mem_cons_self
          exact ⟨by simpa [hfirst] using Ne.symm hd, List.cons_subset_cons _ hsubset⟩
        · obtain ⟨hpiece, hsubset⟩ := ih (List.mem_cons_of_mem _ h)
          exact ⟨hpiece, List.subset_cons_of_subset _ hsubset⟩

end Text

namespace Address

/-- What follows an origin is an end of the text. -/
theorem suffix_of_afterOrigin? {t path : Text} (h : afterOrigin? t = some path) : path <:+ t := by
  simp only [afterOrigin?, Option.bind_eq_bind, Option.bind_eq_some_iff] at h
  obtain ⟨rest, hrest, tail, htail, h⟩ := h
  have hpath : path <:+ tail := by
    split at h
    · rename_i hcons
      cases h
      exact (List.suffix_cons _ _).trans (hcons ▸ List.dropWhile_suffix _)
    · cases h
  have htail' : tail <:+ rest := by
    have := Text.eq_of_after? htail
    split at this
    · exact ⟨_, by rw [List.cons_append, ← this]⟩
    · exact ⟨_, this.symm⟩
  exact hpath.trans (htail'.trans ⟨_, (Text.eq_of_after? hrest).symm⟩)

theorem mem_of_mem_withoutOrigin {t : Text} {c : Char} (h : c ∈ withoutOrigin t) : c ∈ t := by
  induction t with
  | nil => exact h
  | cons d rest ih =>
    rw [withoutOrigin] at h
    split at h
    · rename_i hpath
      exact (suffix_of_afterOrigin? hpath).subset h
    · rcases List.mem_cons.mp h with rfl | h
      · exact List.mem_cons_self
      · exact List.mem_cons_of_mem _ (ih h)

theorem mem_of_mem_replaceFirst {mark t : Text} {c : Char} (h : c ∈ Text.replaceFirst mark [] t) :
    c ∈ t := by
  rw [Text.replaceFirst] at h
  split at h
  · rename_i hcut
    rw [Text.eq_of_cut? hcut]
    rw [List.append_nil, List.mem_append] at h
    rcases h with h | h <;> simp [h]
  · exact h

theorem mem_of_mem_base_none {address : Text} {c : Char} (h : c ∈ base none address) :
    c ∈ address ∨ c = '/' := by
  rw [base] at h
  split at h
  · rename_i hcut
    rcases List.mem_append.mp h with h | h
    · refine Or.inl (mem_of_mem_withoutOrigin ?_)
      rw [Text.eq_of_cutAtLast? hcut]
      exact List.mem_append_left _ h
    · exact Or.inr (List.mem_singleton.mp h)
  · exact Or.inr (List.mem_singleton.mp h)

/-- A base path has only slashes and characters of the address. -/
theorem mem_base {directory : Option Text} {address : Text} {c : Char}
    (h : c ∈ base directory address) : c ∈ address ∨ c = '/' := by
  cases directory with
  | none => exact mem_of_mem_base_none h
  | some directory => exact (mem_of_mem_base_none h).imp_left mem_of_mem_replaceFirst

end Address

end StyleBatch
