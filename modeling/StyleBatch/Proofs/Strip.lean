import StyleBatch.Proofs.Pieces

/-!
# Placeholders between pieces of text

A staged source is a strip: a piece of text, then each time a placeholder and the next piece.
Neither pieces nor keys have the mark, so the text is cut at its marks in one way only, but a mark
that closes one placeholder and the mark that opens the next one look the same.  Hence a piece
between two placeholders that is spelled like a key can be taken for a placeholder of that key.

* `Strip.cut?_segment`: what stands between two marks is found if and only if it is the key.
* `Strip.substitution_exact_iff`: substituting is exact if and only if no piece is taken for a
  placeholder.
-/

namespace StyleBatch

/-- A key as it is made from a base path and a file, in texts without the mark. -/
def Key.Canonical (k : Key) : Prop :=
  Key.separator ∈ k.text ∧ '\x00' ∉ k.text

instance (k : Key) : Decidable k.Canonical :=
  inferInstanceAs (Decidable (_ ∧ _))

/-- Placeholders, each with the piece of text behind it. -/
abbrev Strip := List (Key × Text)

namespace Strip

/-- The text of a strip behind a first piece. -/
def text (first : Text) (rows : Strip) : Text :=
  first ++ rows.flatMap fun (k, piece) => k.placeholder ++ piece

/-- The keys of the placeholders in their order. -/
def keys (rows : Strip) : List Key :=
  rows.map Prod.fst

/-- Keys are canonical and pieces have no mark. -/
def Unmarked (rows : Strip) : Prop :=
  ∀ row ∈ rows, row.1.Canonical ∧ '\x00' ∉ row.2

/-- Before the first placeholder of the key, a piece between two placeholders is spelled like it. -/
def Feigned (k : Key) : Strip → Prop
  | (k', piece) :: next :: rest => k' ≠ k ∧ (piece = k.text ∨ Feigned k (next :: rest))
  | _ => False

/-- Substituting `k` fails if the strip has no placeholder of it.  Otherwise the first one is
replaced, and all pieces and other placeholders stay. -/
def Exact (k : Key) (first : Text) (rows : Strip) : Prop :=
  ∀ t : Text, (k ∉ keys rows → k.substitute? t (text first rows) = none) ∧
    ∀ before piece after, rows = before ++ (k, piece) :: after → k ∉ keys before →
      k.substitute? t (text first rows) = some (text first before ++ t ++ text piece after)

section Decidable

instance (rows : Strip) : Decidable (Unmarked rows) :=
  List.decidableBAll (fun row : Key × Text => row.1.Canonical ∧ '\x00' ∉ row.2) rows

instance decidableFeigned (k : Key) : (rows : Strip) → Decidable (Feigned k rows)
  | [] => isFalse id
  | [_] => isFalse id
  | (k', piece) :: next :: rest =>
    have := decidableFeigned k (next :: rest)
    inferInstanceAs (Decidable (k' ≠ k ∧ (piece = k.text ∨ Feigned k (next :: rest))))

end Decidable

variable {k k' : Key} {first piece t : Text} {rows rest : Strip}

theorem text_cons : text first ((k', piece) :: rest) =
    first ++ '\x00' :: (k'.text ++ '\x00' :: text piece rest) := by
  simp [text, Key.placeholder]

theorem text_append (before : Strip) (after : Strip) :
    text first (before ++ after) = text first before ++ text [] after := by
  simp [text]

theorem append_text_nil (piece : Text) : piece ++ text [] rest = text piece rest := by
  simp [text]

/-! ## One mark after the other -/

/-- Text without the mark is passed over. -/
theorem cut?_append {s : Text} (hs : '\x00' ∉ s) (t : Text) :
    Text.cut? k.placeholder (s ++ t) =
      (Text.cut? k.placeholder t).map fun (before, after) => (s ++ before, after) :=
  Text.cut?_append hs t

/-- Behind a mark the key is found if and only if it is all that stands before the next one. -/
theorem cut?_segment {s : Text} (hk : '\x00' ∉ k.text) (hs : '\x00' ∉ s) (tail : Text) :
    Text.cut? k.placeholder ('\x00' :: (s ++ '\x00' :: tail)) =
      if s = k.text then some ([], tail)
      else (Text.cut? k.placeholder ('\x00' :: tail)).map fun (before, after) =>
        ('\x00' :: (s ++ before), after) := by
  split
  · rename_i heq
    have htext : '\x00' :: (s ++ '\x00' :: tail) = k.placeholder ++ tail := by
      simp [Key.placeholder, heq]
    rw [htext]
    exact Text.cut?_self _ _ _
  · rename_i hne
    have hnot : ¬k.placeholder <+: '\x00' :: (s ++ '\x00' :: tail) := by
      intro hstarts
      obtain ⟨-, hstarts⟩ := List.cons_prefix_cons.mp hstarts
      exact hne (Text.eq_of_isPrefix hk hs hstarts).symm
    rw [Text.cut?_cons_of_not_isPrefix hnot, cut?_append hs, Option.map_map]
    rfl

/-- Behind the last mark there is no placeholder. -/
theorem cut?_last {s : Text} (hs : '\x00' ∉ s) : Text.cut? k.placeholder ('\x00' :: s) = none := by
  have hnot : ¬k.placeholder <+: '\x00' :: s := by
    intro hstarts
    obtain ⟨-, hstarts⟩ := List.cons_prefix_cons.mp hstarts
    exact hs (hstarts.subset (by simp))
  rw [Text.cut?_cons_of_not_isPrefix hnot, ← List.append_nil s, cut?_append hs]
  rfl

/-- A first piece is left alone. -/
theorem cut?_text (hfirst : '\x00' ∉ first) : Text.cut? k.placeholder (text first rows) =
    (Text.cut? k.placeholder (text [] rows)).map fun (before, after) =>
      (first ++ before, after) := by
  rw [← append_text_nil, cut?_append hfirst]

/-- At a placeholder of another key the search goes on at the mark that closes it. -/
theorem cut?_of_ne (hk : '\x00' ∉ k.text) (hk' : '\x00' ∉ k'.text) (hne : k' ≠ k) :
    Text.cut? k.placeholder (text [] ((k', piece) :: rest)) =
      (Text.cut? k.placeholder ('\x00' :: text piece rest)).map fun (before, after) =>
        ('\x00' :: (k'.text ++ before), after) := by
  have htext : k'.text ≠ k.text := by
    intro heq
    cases k
    cases k'
    exact hne (congrArg Key.mk heq)
  rw [text_cons, List.nil_append, cut?_segment hk hk', if_neg htext]

/-- At a placeholder of the key the search ends. -/
theorem cut?_of_eq (hk : '\x00' ∉ k.text) :
    Text.cut? k.placeholder (text [] ((k, piece) :: rest)) = some ([], text piece rest) := by
  rw [text_cons, List.nil_append, cut?_segment hk hk, if_pos rfl]

/-- At a piece between two placeholders the search goes on, unless it is spelled like the key. -/
theorem cut?_piece (hk : '\x00' ∉ k.text) (hpiece : '\x00' ∉ piece) (next : Key × Text) :
    Text.cut? k.placeholder ('\x00' :: text piece (next :: rest)) =
      if piece = k.text then some ([], next.1.text ++ '\x00' :: text next.2 rest)
      else (Text.cut? k.placeholder (text [] (next :: rest))).map fun (before, after) =>
        ('\x00' :: (piece ++ before), after) := by
  obtain ⟨k', piece'⟩ := next
  rw [text_cons, text_cons, cut?_segment hk hpiece]
  rfl

/-! ## Where a key is found -/

/-- In a strip without the key there is nothing to find, if no piece is taken for it. -/
theorem cut?_eq_none (hk : '\x00' ∉ k.text) (hrows : Unmarked rows) (hnot : ¬Feigned k rows)
    (hmem : k ∉ keys rows) : Text.cut? k.placeholder (text [] rows) = none := by
  induction rows with
  | nil => rfl
  | cons row rest ih =>
    obtain ⟨k', piece⟩ := row
    obtain ⟨⟨-, hk'⟩, hpiece⟩ := hrows _ List.mem_cons_self
    have hrest : Unmarked rest := fun row hrow => hrows row (List.mem_cons_of_mem _ hrow)
    obtain ⟨hne, hmem⟩ := not_or.mp (List.mem_cons.not.mp hmem)
    rw [cut?_of_ne hk hk' (Ne.symm hne), Option.map_eq_none_iff]
    cases rest with
    | nil =>
      rw [text, List.flatMap_nil, List.append_nil]
      exact cut?_last hpiece
    | cons next rest =>
      obtain ⟨hne', hnot⟩ := not_or.mp fun h => hnot ⟨Ne.symm hne, h⟩
      rw [cut?_piece hk hpiece, if_neg hne', Option.map_eq_none_iff]
      exact ih hrest hnot hmem

/-- The first placeholder of the key is found, if no piece is taken for it. -/
theorem cut?_eq_some (hk : '\x00' ∉ k.text) {before after : Strip}
    (hrows : Unmarked (before ++ (k, piece) :: after))
    (hnot : ¬Feigned k (before ++ (k, piece) :: after)) (hmem : k ∉ keys before) :
    Text.cut? k.placeholder (text [] (before ++ (k, piece) :: after)) =
      some (text [] before, text piece after) := by
  induction before with
  | nil => exact cut?_of_eq hk
  | cons row before ih =>
    obtain ⟨k', piece'⟩ := row
    obtain ⟨⟨-, hk'⟩, hpiece'⟩ := hrows _ List.mem_cons_self
    have hrest : Unmarked (before ++ (k, piece) :: after) :=
      fun row hrow => hrows row (List.mem_cons_of_mem _ hrow)
    obtain ⟨hne, hmem⟩ := not_or.mp (List.mem_cons.not.mp hmem)
    obtain ⟨next, rest, hnext⟩ : ∃ next rest, before ++ (k, piece) :: after = next :: rest :=
      List.exists_cons_of_ne_nil (by simp)
    rw [List.cons_append, hnext] at hnot
    rw [hnext] at ih hrest
    obtain ⟨hne', hnot⟩ := not_or.mp fun h => hnot ⟨Ne.symm hne, h⟩
    rw [List.cons_append, hnext, cut?_of_ne hk hk' (Ne.symm hne), cut?_piece hk hpiece',
      if_neg hne', ih hrest hnot hmem, Option.map_some, Option.map_some, text_cons,
      ← append_text_nil]
    rfl

/-- A piece that is taken for the key is found, with the marks of its neighbours. -/
theorem exists_of_feigned (hk : '\x00' ∉ k.text) (hrows : Unmarked rows) (h : Feigned k rows) :
    ∃ before k' next after, rows = before ++ (k', k.text) :: next :: after ∧ k ∉ keys before ∧
      k' ≠ k ∧ Text.cut? k.placeholder (text [] rows) = some (text [] before ++ '\x00' :: k'.text,
        next.1.text ++ '\x00' :: text next.2 after) := by
  induction rows with
  | nil => exact h.elim
  | cons row rest ih =>
    obtain ⟨k', piece⟩ := row
    cases rest with
    | nil => exact h.elim
    | cons next rest =>
      obtain ⟨⟨-, hk'⟩, hpiece⟩ := hrows _ List.mem_cons_self
      obtain ⟨hne, h⟩ := h
      rw [cut?_of_ne hk hk' hne, cut?_piece hk hpiece]
      by_cases heq : piece = k.text
      · rw [if_pos heq, heq]
        exact ⟨[], k', next, rest, rfl, List.not_mem_nil, hne, by simp [text]⟩
      · have hrest : Unmarked (next :: rest) :=
          fun row hrow => hrows row (List.mem_cons_of_mem _ hrow)
        obtain ⟨before, k'', next', after, hbefore, hmem, hne', hcut⟩ :=
          ih hrest (h.resolve_left heq)
        rw [if_neg heq, hcut]
        refine ⟨(k', piece) :: before, k'', next', after, by rw [hbefore, List.cons_append], ?_,
          hne', ?_⟩
        · exact List.mem_cons.not.mpr (not_or.mpr ⟨Ne.symm hne, hmem⟩)
        · rw [text_cons, ← append_text_nil piece]
          simp

/-! ## Substituting -/

/-- A key that is listed has a first placeholder. -/
theorem exists_first (h : k ∈ keys rows) :
    ∃ before piece after, rows = before ++ (k, piece) :: after ∧ k ∉ keys before := by
  obtain ⟨front, back, heq, hmem⟩ := List.eq_append_cons_of_mem h
  obtain ⟨before, behind, rfl, rfl, hbehind⟩ := List.map_eq_append_iff.mp heq
  obtain ⟨⟨_, piece⟩, after, rfl, rfl, -⟩ := List.map_eq_cons_iff.mp hbehind
  exact ⟨before, piece, after, rfl, hmem⟩

/-- If no piece is taken for a placeholder of the key, substituting is exact. -/
theorem exact_of_not_feigned (hfirst : '\x00' ∉ first) (hrows : Unmarked rows)
    (hk : '\x00' ∉ k.text) (hnot : ¬Feigned k rows) : Exact k first rows := by
  intro t
  constructor
  · intro hmem
    rw [Key.substitute?, cut?_text hfirst, cut?_eq_none hk hrows hnot hmem]
    rfl
  · rintro before piece after rfl hmem
    rw [Key.substitute?, cut?_text hfirst, cut?_eq_some hk hrows hnot hmem]
    simp [text]

/-- If one is, it is replaced, and with it the marks of two placeholders that should stay. -/
theorem not_exact_of_feigned (hfirst : '\x00' ∉ first) (hrows : Unmarked rows)
    (hk : '\x00' ∉ k.text) (hfeigned : Feigned k rows) : ¬Exact k first rows := by
  intro hexact
  obtain ⟨before, k', next, after, rfl, hmem, hne, hcut⟩ := exists_of_feigned hk hrows hfeigned
  obtain ⟨hnone, hsome⟩ := hexact []
  have hsubstitute : k.substitute? [] (text first (before ++ (k', k.text) :: next :: after)) =
      some (text first before ++ '\x00' ::
        (k'.text ++ (next.1.text ++ '\x00' :: text next.2 after))) := by
    rw [Key.substitute?, cut?_text hfirst, hcut]
    simp [text]
  by_cases hlisted : k ∈ keys (before ++ (k', k.text) :: next :: after)
  · rw [keys, List.map_append, List.mem_append, List.map_cons, List.mem_cons] at hlisted
    obtain ⟨more, piece, rest, hmore, hfirst'⟩ :=
      exists_first ((hlisted.resolve_left hmem).resolve_left (Ne.symm hne))
    have hbefore : k ∉ keys (before ++ (k', k.text) :: more) := by
      rw [keys, List.map_append, List.mem_append, List.map_cons, List.mem_cons]
      exact not_or.mpr ⟨hmem, not_or.mpr ⟨Ne.symm hne, hfirst'⟩⟩
    have hexpected := hsome (before ++ (k', k.text) :: more) piece rest
      (by rw [hmore, List.append_assoc, List.cons_append]) hbefore
    -- What was found begins at the mark behind `k'`, what is to be found stands further on.
    rw [hsubstitute, text_append, text_cons] at hexpected
    have hmark : next.1.text ++ '\x00' :: text next.2 after =
        '\x00' :: (text k.text more ++ text piece rest) := by
      simpa using hexpected
    have hnext := (hrows next (by simp)).1
    obtain ⟨c, s, hs⟩ := List.exists_cons_of_ne_nil (List.ne_nil_of_mem hnext.1)
    rw [hs, List.cons_append] at hmark
    obtain ⟨rfl, -⟩ := List.cons.inj hmark
    exact hnext.2 (hs ▸ List.mem_cons_self)
  · rw [hnone hlisted] at hsubstitute
    cases hsubstitute

/-- Substituting a key in a strip is exact, whatever takes the place of the placeholder, if and only
if no piece is taken for a placeholder of the key. -/
theorem substitution_exact_iff (hfirst : '\x00' ∉ first) (hrows : Unmarked rows)
    (hk : '\x00' ∉ k.text) : Exact k first rows ↔ ¬Feigned k rows := by
  constructor
  · intro hexact hfeigned
    exact not_exact_of_feigned hfirst hrows hk hfeigned hexact
  · intro hnot
    exact exact_of_not_feigned hfirst hrows hk hnot

section Feigning

def keyOf (name : String) : Key :=
  .ofParts "s/" ("./_" ++ name ++ ".scss")

/-- A piece that only begins like the key, and one that is spelled like it behind its first
placeholder. -/
def honest : Strip :=
  [(keyOf "a", "s/|./_b.scss;"), (keyOf "b", "s/|./_b.scss"), (keyOf "b", "")]

/-- Only the first placeholder is replaced. -/
theorem substitution_exact_honest :
    ('\x00' ∉ ("x" : Text) ∧ Unmarked honest ∧ '\x00' ∉ (keyOf "b").text ∧
      ¬Feigned (keyOf "b") honest) ∧ Exact (keyOf "b") "x" honest :=
  ⟨by decide, (substitution_exact_iff (by decide) (by decide) (by decide)).mpr (by decide)⟩

/-- Two placeholders with a piece between them that is spelled like a third key. -/
def feigning : Strip :=
  [(keyOf "a", "s/|./_c.scss"), (keyOf "b", ";")]

/-- The third key has no placeholder, but is replaced, and the two placeholders are lost. -/
theorem substitution_feigned :
    Unmarked feigning ∧ (keyOf "c").Canonical ∧ keyOf "c" ∉ keys feigning ∧
      (keyOf "c").substitute? "c" (text [] feigning) =
        some ('\x00' :: ("s/|./_a.scss" ++ "c" ++ "s/|./_b.scss" ++ '\x00' :: ";" : Text)) ∧
      ¬Exact (keyOf "c") [] feigning := by
  have hfound : (keyOf "c").substitute? "c" (text [] feigning) =
      some ('\x00' :: ("s/|./_a.scss" ++ "c" ++ "s/|./_b.scss" ++ '\x00' :: ";" : Text)) := by
    decide +kernel
  refine ⟨by decide, by decide, by decide, hfound, fun hexact => ?_⟩
  rw [(hexact "c").1 (by decide)] at hfound
  cases hfound

end Feigning

end Strip

end StyleBatch
