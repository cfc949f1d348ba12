import StyleBatch.Proofs.Sequence
import StyleBatch.Resolution

/-!
# Sources as rows of lexemes

The lexemes of a source, put together again, are the source, and the spans of its directives are
where its directive lexemes stand.  So filling a source is a matter of lexemes only: no offset is
out of place, and what is not a directive stays as it is.

* `Directive.flatMap_parts`: the parts of a source make up the source.
* `Resolution.fill_scan`: a filled source is its parts with the directives exchanged.
* `Directive.mem_of_mem_plain`, `Directive.mem_of_mem_specifier`: parts have no other characters.
-/

namespace StyleBatch

namespace Text

theorem byteSize_cons (c : Char) (t : Text) : byteSize (c :: t) = c.utf8Size + byteSize t := rfl

theorem byteSize_append (s t : Text) : byteSize (s ++ t) = byteSize s + byteSize t := by
  induction s with
  | nil => simp [byteSize]
  | cons c s ih => rw [List.cons_append, byteSize_cons, byteSize_cons, ih, Nat.add_assoc]

/-- A cut after the bytes of what stands in front. -/
theorem cutBytes?_append (s t : Text) : cutBytes? (byteSize s) (s ++ t) = some (s, t) := by
  induction s with
  | nil =>
    cases t with
    | nil => rfl
    | cons => rfl
  | cons c s ih =>
    have hc : 0 < c.utf8Size := Char.utf8Size_pos c
    obtain ⟨m, hm⟩ : ∃ m, byteSize (c :: s) = m + 1 :=
      Nat.exists_eq_add_one.mpr (by rw [byteSize_cons]; omega)
    have hrest : m + 1 - c.utf8Size = byteSize s := by
      rw [← hm, byteSize_cons]
      omega
    have hle : c.utf8Size ≤ m + 1 := by
      rw [← hm, byteSize_cons]
      omega
    rw [hm, List.cons_append, cutBytes?, if_pos hle, hrest, ih]
    rfl

end Text

namespace Lexeme

/-! ## A lexeme is what a text begins with -/

theorem blockComment_isPrefix (t : Text) : blockComment t <+: t := by
  fun_induction blockComment t with
  | case1 rest => exact ⟨rest, rfl⟩
  | case2 c rest _ ih => exact List.cons_prefix_cons.mpr ⟨rfl, ih⟩
  | case3 => exact List.prefix_rfl

theorem stringLiteral_isPrefix (quote : Char) (t : Text) : stringLiteral quote t <+: t := by
  fun_induction stringLiteral quote t with
  | case1 => exact List.prefix_rfl
  | case2 => exact List.prefix_rfl
  | case3 c rest ih =>
    exact List.cons_prefix_cons.mpr ⟨rfl, List.cons_prefix_cons.mpr ⟨rfl, ih⟩⟩
  | case4 => exact List.nil_prefix
  | case5 c rest => exact List.cons_prefix_cons.mpr ⟨rfl, List.nil_prefix⟩
  | case6 c rest _ _ _ _ ih => exact List.cons_prefix_cons.mpr ⟨rfl, ih⟩

theorem afterKeyword?_isPrefix {t : Text} {lexeme : Lexeme} (h : afterKeyword? t = some lexeme) :
    ∃ filler quote specifier, lexeme = directive filler quote specifier ∧
      filler ++ [quote] ++ specifier ++ [quote] <+: t := by
  rw [afterKeyword?] at h
  split at h
  · rename_i quote rest hrest
    simp only [Option.ite_none_right_eq_some, Bool.and_eq_true, beq_iff_eq,
      Option.some.injEq] at h
    obtain ⟨⟨-, hquote⟩, rfl⟩ := h
    generalize hinside : (fun c => !(isLineEnd c || c == quote)) = inside at hquote
    obtain ⟨more, hmore⟩ : ∃ more, rest.dropWhile inside = quote :: more := by
      cases hdrop : rest.dropWhile inside with
      | nil => simp [hdrop] at hquote
      | cons c more =>
        rw [hdrop, List.head?_cons, Option.some.injEq] at hquote
        exact ⟨more, by rw [hquote]⟩
    refine ⟨_, quote, rest.takeWhile inside, rfl, more, ?_⟩
    calc t.takeWhile isFiller ++ [quote] ++ rest.takeWhile inside ++ [quote] ++ more
        = t.takeWhile isFiller ++ quote :: (rest.takeWhile inside ++ quote :: more) := by simp
      _ = t.takeWhile isFiller ++ quote :: rest := by
          rw [← hmore, List.takeWhile_append_dropWhile]
      _ = t := by rw [← hrest, List.takeWhile_append_dropWhile]
  · cases h

theorem atWord_isPrefix (rest : Text) :
    (atWord rest).text <+: '@' :: rest ∧ (atWord rest).text ≠ [] := by
  have hat : (plain ['@']).text <+: '@' :: rest ∧ (plain ['@']).text ≠ [] :=
    ⟨⟨rest, rfl⟩, nofun⟩
  rw [atWord]
  split
  · rename_i c more hmore
    have hkeyword : '@' :: rest = keyword ++ (c :: more) := by
      rw [Text.after?] at hmore
      split at hmore
      · rename_i hstarts
        obtain ⟨tail, htail⟩ := List.isPrefixOf_iff_prefix.mp hstarts
        rw [← htail, List.drop_left, Option.some.injEq] at hmore
        rw [← htail, hmore]
      · cases hmore
    split
    · exact hat
    · cases hword : afterKeyword? (c :: more) with
      | none =>
        rw [Option.getD_none, hkeyword]
        exact ⟨⟨_, rfl⟩, by decide⟩
      | some lexeme =>
        obtain ⟨filler, quote, specifier, rfl, tail, htail⟩ := afterKeyword?_isPrefix hword
        rw [Option.getD_some, hkeyword, ← htail]
        refine ⟨⟨tail, ?_⟩, ?_⟩
        · simp [text]
        · simp [text]
  · exact hat

theorem first_isPrefix (c : Char) (rest : Text) :
    (first c rest).text <+: c :: rest ∧ (first c rest).text ≠ [] := by
  unfold first
  split
  · rename_i body
    refine ⟨?_, nofun⟩
    exact List.cons_prefix_cons.mpr
      ⟨rfl, List.cons_prefix_cons.mpr ⟨rfl, blockComment_isPrefix body⟩⟩
  · rename_i body
    refine ⟨?_, nofun⟩
    exact List.cons_prefix_cons.mpr
      ⟨rfl, List.cons_prefix_cons.mpr ⟨rfl, List.takeWhile_prefix _⟩⟩
  · exact atWord_isPrefix rest
  · split
    · exact ⟨List.cons_prefix_cons.mpr ⟨rfl, stringLiteral_isPrefix c rest⟩, nofun⟩
    · exact ⟨List.cons_prefix_cons.mpr ⟨rfl, List.nil_prefix⟩, nofun⟩

theorem flatMap_text_listAfter (skip : Nat) (t : Text) :
    (listAfter skip t).flatMap text = t.drop skip := by
  induction t generalizing skip with
  | nil => cases skip <;> rfl
  | cons c rest ih =>
    cases skip with
    | zero =>
      obtain ⟨⟨tail, htail⟩, hne⟩ := first_isPrefix c rest
      obtain ⟨n, hn⟩ : ∃ n, (first c rest).text.length = n + 1 :=
        Nat.exists_eq_add_one.mpr (List.length_pos_iff.mpr hne)
      have hdrop : rest.drop n = tail := by
        rw [← List.drop_succ_cons (a := c), ← hn, ← htail, List.drop_left]
      rw [listAfter, List.flatMap_cons, ih, hn, Nat.add_sub_cancel, hdrop, htail, List.drop_zero]
    | succ skip => rw [listAfter, ih, List.drop_succ_cons]

/-! ## Exchanging directives -/

/-- Lexemes with texts in the place of the directives. -/
def weave : List Lexeme → List Text → Text
  | [], _ => []
  | plain t :: rest, texts => t ++ weave rest texts
  | directive .. :: rest, [] => weave rest []
  | directive .. :: rest, t :: texts => t ++ weave rest texts

/-- Splicing is weaving, wherever the lexemes begin. -/
theorem spliceFrom_directives (ls : List Lexeme) (offset : Nat) (before : Text) (ts : List Text)
    (h : ts.length = (directives (offset + Text.byteSize before) ls).length) :
    Directive.spliceFrom offset (before ++ ls.flatMap text)
        ((directives (offset + Text.byteSize before) ls).zip ts) =
      some (before ++ weave ls ts) := by
  induction ls generalizing offset before ts with
  | nil => simp [directives, weave, Directive.spliceFrom]
  | cons lexeme rest ih =>
    cases lexeme with
    | plain t =>
      have hoffset : offset + Text.byteSize before + Text.byteSize t =
          offset + Text.byteSize (before ++ t) := by rw [Text.byteSize_append, Nat.add_assoc]
      rw [directives, hoffset] at h ⊢
      rw [List.flatMap_cons, text, ← List.append_assoc, ih _ _ _ h, weave, List.append_assoc]
    | directive filler quote specifier =>
      rw [directives] at h ⊢
      cases ts with
      | nil => simp at h
      | cons t ts =>
        generalize hword : directive filler quote specifier = word at h ⊢
        have hlength : ts.length = (directives
            (offset + Text.byteSize before + Text.byteSize word.text + Text.byteSize []) rest).length := by
          simpa [Text.byteSize] using h
        have hrest := ih _ [] ts hlength
        rw [List.nil_append, List.nil_append] at hrest
        have hle : (decide (offset ≤ offset + Text.byteSize before) &&
            decide (offset + Text.byteSize before ≤
              offset + Text.byteSize before + Text.byteSize word.text)) = true := by simp
        rw [List.zip_cons_cons, Directive.spliceFrom, if_pos hle, List.flatMap_cons]
        simp only [Nat.add_sub_cancel_left, Text.cutBytes?_append, Option.bind_eq_bind,
          Option.bind_some]
        rw [show Text.byteSize [] = 0 from rfl, Nat.add_zero] at hrest
        rw [hrest, ← hword, weave]
        simp

/-- Each of the texts is in what is woven. -/
theorem infix_weave {ls : List Lexeme} {offset : Nat} {ts : List Text} {u : Text}
    (h : ts.length = (directives offset ls).length) (hu : u ∈ ts) : u <:+: weave ls ts := by
  induction ls generalizing offset ts with
  | nil =>
    rw [List.eq_nil_of_length_eq_zero h] at hu
    cases hu
  | cons lexeme rest ih =>
    cases lexeme with
    | plain t => exact (ih h hu).trans (List.suffix_append t _).isInfix
    | directive filler quote specifier =>
      cases ts with
      | nil => cases hu
      | cons t ts =>
        rcases List.mem_cons.mp hu with rfl | hu
        · exact (List.prefix_append u _).isInfix
        · exact (ih (Nat.succ.inj h) hu).trans (List.suffix_append t _).isInfix

/-- What is woven, cut behind the text in the place of a directive. -/
theorem exists_cut {ls : List Lexeme} {offset j : Nat} {ts : List Text} {u : Text}
    (h : ts.length = (directives offset ls).length) (hu : ts[j]? = some u) :
    ∃ us filler quote specifier vs, ls = us ++ directive filler quote specifier :: vs ∧
      (directives offset us).length = j ∧
      weave ls ts = weave us (ts.take j) ++ u ++ weave vs (ts.drop (j + 1)) := by
  induction ls generalizing offset j ts with
  | nil =>
    rw [List.eq_nil_of_length_eq_zero h] at hu
    cases hu
  | cons lexeme rest ih =>
    cases lexeme with
    | plain t =>
      obtain ⟨us, filler, quote, specifier, vs, rfl, hj, heq⟩ := ih h hu
      refine ⟨plain t :: us, filler, quote, specifier, vs, rfl, hj, ?_⟩
      rw [weave, heq, weave, List.append_assoc, List.append_assoc, List.append_assoc]
    | directive filler quote specifier =>
      cases ts with
      | nil => cases hu
      | cons t ts =>
        cases j with
        | zero =>
          cases hu
          exact ⟨[], filler, quote, specifier, rest, rfl, rfl, rfl⟩
        | succ j =>
          obtain ⟨us, filler', quote', specifier', vs, rfl, hj, heq⟩ := ih (Nat.succ.inj h) hu
          refine ⟨directive filler quote specifier :: us, filler', quote', specifier', vs, rfl,
            ?_, ?_⟩
          · rw [directives, List.length_cons, hj]
          · rw [weave, heq, List.take_succ_cons, weave, List.drop_succ_cons, List.append_assoc,
              List.append_assoc, List.append_assoc]

/-- A directive has the specifier of a lexeme. -/
theorem exists_of_mem_directives {ls : List Lexeme} {offset : Nat} {d : Directive}
    (h : d ∈ directives offset ls) : ∃ filler quote, directive filler quote d.specifier ∈ ls := by
  induction ls generalizing offset with
  | nil => cases h
  | cons lexeme rest ih =>
    cases lexeme with
    | plain t =>
      obtain ⟨filler, quote, hmem⟩ := ih h
      exact ⟨filler, quote, List.mem_cons_of_mem _ hmem⟩
    | directive filler quote specifier =>
      rcases List.mem_cons.mp h with rfl | h
      · exact ⟨filler, quote, List.mem_cons_self⟩
      · obtain ⟨filler, quote, hmem⟩ := ih h
        exact ⟨filler, quote, List.mem_cons_of_mem _ hmem⟩

end Lexeme

namespace Directive

/-- The lexemes that a scan goes by: a source without the keyword is one lexeme. -/
def parts (source : Text) : List Lexeme :=
  if Text.holds Lexeme.keyword source then lexemes source else [.plain source]

theorem scan_eq (source : Text) : scan source = Lexeme.directives 0 (parts source) := by
  rw [scan, parts]
  split
  · rfl
  · rfl

theorem flatMap_parts (source : Text) : (parts source).flatMap Lexeme.text = source := by
  rw [parts]
  split
  · exact Lexeme.flatMap_text_listAfter 0 source
  · simp [Lexeme.text]

theorem mem_of_mem_plain {source t : Text} (h : .plain t ∈ parts source) {c : Char} (hc : c ∈ t) :
    c ∈ source := by
  rw [← flatMap_parts source]
  exact List.mem_flatMap.mpr ⟨_, h, hc⟩

theorem mem_of_mem_specifier {source : Text} {d : Directive} (h : d ∈ scan source) {c : Char}
    (hc : c ∈ d.specifier) : c ∈ source := by
  rw [scan_eq] at h
  obtain ⟨filler, quote, hmem⟩ := Lexeme.exists_of_mem_directives h
  rw [← flatMap_parts source]
  refine List.mem_flatMap.mpr ⟨_, hmem, ?_⟩
  rw [Lexeme.text]
  simp [hc]

end Directive

/-- A filled source is its parts with the directives exchanged. -/
theorem Resolution.fill_scan {source : Text} {ts : List Text}
    (h : ts.length = (Directive.scan source).length) :
    fill source (Directive.scan source) ts = Lexeme.weave (Directive.parts source) ts := by
  rw [Directive.scan_eq] at h ⊢
  have hsplice := Lexeme.spliceFrom_directives (Directive.parts source) 0 [] ts h
  rw [List.nil_append, List.nil_append, Directive.flatMap_parts] at hsplice
  have hfill : Directive.splice source
      ((Lexeme.directives 0 (Directive.parts source)).zip ts) = some _ := hsplice
  rw [fill, hfill, Option.getD_some]

end StyleBatch
