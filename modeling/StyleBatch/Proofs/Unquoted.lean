import StyleBatch.Proofs.Comments

/-!
# Imports without quotes

A statement that ends before a quote is no directive, and what stands in it is read again like any
other text.  Character by character nothing comes of that, with one exception: two slashes open a
comment, which takes the rest of the line with it, behind the semicolon too.

* `Directive.specifiers_cons_of_inert`: a character of such a statement.
* `Directive.specifiers_of_inert`: all of them, up to the semicolon.
* `Directive.unquoted_passed`: what is left of a source behind an unquoted url.
-/

namespace StyleBatch

open Stretch (Inert Quote Ends importWord)

namespace Text

/-- A text without slashes has no part in two of them, in front or behind. -/
theorem slashes_infix_append {front t back : Text} (hfront : '/' ∉ front) (hback : '/' ∉ back) :
    ['/', '/'] <:+: front ++ t ++ back ↔ ['/', '/'] <:+: t := by
  have hbehind : ∀ {front t : Text}, '/' ∉ front →
      (['/', '/'] <:+: front ++ t ↔ ['/', '/'] <:+: t) := by
    intro front t hfront
    induction front with
    | nil => rfl
    | cons c front ih =>
      obtain ⟨hc, hfront⟩ := not_or.mp (mt List.mem_cons.mpr hfront)
      rw [List.cons_append, List.infix_cons_iff, ih hfront]
      exact or_iff_right fun hprefix => hc (List.cons_prefix_cons.mp hprefix).1
  have hreverse : ∀ t : Text, ['/', '/'] <:+: t.reverse ↔ ['/', '/'] <:+: t :=
    fun t => @List.reverse_infix Char ['/', '/'] t
  rw [List.append_assoc, hbehind hfront, ← hreverse, List.reverse_append,
    hbehind (mt List.mem_reverse.mp hback), hreverse]

end Text

/-- A slash that opens no comment. -/
theorem Lexeme.first_slash_append {t : Text} {e : Char} (hstar : e ≠ '*') (hslash : e ≠ '/')
    (hblock : t.head? ≠ some '*') (hline : t.head? ≠ some '/') (tail : Text) :
    first '/' (t ++ e :: tail) = plain ['/'] := by
  cases t with
  | nil => exact Bytewise.first_slash (by simpa using hstar) (by simpa using hslash)
  | cons c t => exact Bytewise.first_slash hblock hline

namespace Directive

open Lexeme

variable {t v : Text} {c : Char}

/-- Characters that open nothing are no matter. -/
theorem specifiers_append_of_plain (h : ∀ c ∈ t, c ≠ '/' ∧ c ≠ '@' ∧ ¬Quote c) (tail : Text) :
    specifiers (t ++ tail) = specifiers tail := by
  have hplain : (t.map fun c => plain [c]).filterMap specifier? = [] := by
    rw [List.filterMap_map, List.filterMap_eq_nil_iff]
    exact fun _ _ => rfl
  rw [specifiers_eq, specifiers_eq, listAfter_of_plain h, List.filterMap_append, hplain,
    List.nil_append]

theorem specifiers_of_first_plain {rest : Text} (h : first c rest = plain [c]) :
    specifiers (c :: rest) = specifiers rest :=
  specifiers_of_first h rfl

theorem specifiers_of_first_keyword {rest : Text}
    (h : first '@' (importWord ++ rest) = plain keyword) :
    specifiers ('@' :: (importWord ++ rest)) = specifiers rest :=
  specifiers_of_first h rfl

/-- An at-word in a statement that ends before a quote. -/
theorem specifiers_at (h : Inert t) (tail : Text) :
    specifiers ('@' :: (t ++ ';' :: tail)) = specifiers (t ++ ';' :: tail) := by
  by_cases hkeyword : keyword <+: '@' :: t
  · obtain ⟨rest, hrest⟩ := hkeyword
    obtain rfl : importWord ++ rest = t := (List.cons.inj hrest).2
    have hends : Ends (rest ++ [';']) :=
      ⟨rest, ';', [], rfl, fun c hc => h c (List.mem_append_right _ hc), .inl rfl⟩
    have hnone : afterKeyword? (rest ++ ';' :: tail) = none := by
      rw [List.append_cons]
      exact afterKeyword?_of_ends hends tail
    obtain ⟨c, more, hmore⟩ : ∃ c more, rest ++ ';' :: tail = c :: more :=
      List.exists_cons_of_ne_nil (by simp)
    have hread := atWord_importWord c more
    rw [List.append_assoc, hmore]
    rw [hmore] at hnone
    rw [hnone, Option.getD_none] at hread
    by_cases hword : isWordChar c = true
    · rw [if_pos hword] at hread
      exact specifiers_of_first_plain hread
    · rw [if_neg hword] at hread
      rw [specifiers_append_of_plain (by decide)]
      exact specifiers_of_first_keyword hread
  · exact specifiers_of_first_plain (atWord_of_not_keyword
      fun hstarts => hkeyword (isPrefix_of_not_mem (by decide) hstarts))

/-- A character of a statement that ends before a quote is no matter, unless it opens a comment. -/
theorem specifiers_cons_of_inert (h : Inert (c :: t))
    (hopens : c = '/' → t.head? ≠ some '/' ∧ t.head? ≠ some '*') (tail : Text) :
    specifiers (c :: (t ++ ';' :: tail)) = specifiers (t ++ ';' :: tail) := by
  obtain ⟨hc, ht⟩ := List.forall_mem_cons.mp h
  by_cases hat : c = '@'
  · subst hat
    exact specifiers_at ht tail
  · by_cases hslash : c = '/'
    · subst hslash
      obtain ⟨hline, hblock⟩ := hopens rfl
      exact specifiers_of_first_plain
        (first_slash_append (by decide) (by decide) hblock hline tail)
    · exact specifiers_of_first_plain
        (first_of_plain ⟨hslash, hat, (isFiller_eq_true.mp hc).2.2.2⟩ _)

theorem specifiers_lineComment (body : Text) : specifiers ('/' :: '/' :: body) =
    specifiers (body.dropWhile (· != '\n')) := by
  refine specifiers_of_first (first_lineComment body) ?_
  rw [Lexeme.text, lineComment, List.cons_append, List.cons_append, List.takeWhile_append_dropWhile]

/-- A statement that ends before a quote is passed through its semicolon, or, if two slashes are in
it, to the end of the line. -/
theorem specifiers_of_inert (h : Inert t) (hstar : '*' ∉ t) (tail : Text) :
    specifiers (t ++ ';' :: tail) =
      specifiers (if ['/', '/'] <:+: t then tail.dropWhile (· != '\n') else tail) := by
  induction t with
  | nil => exact specifiers_of_first_plain (first_of_plain (by decide) tail)
  | cons c t ih =>
    have ht : Inert t := fun d hd => h d (List.mem_cons_of_mem c hd)
    have hstar' : '*' ∉ t := mt (List.mem_cons_of_mem c) hstar
    by_cases hcomment : ['/', '/'] <+: c :: t
    · obtain ⟨body, hbody⟩ := hcomment
      rw [← hbody] at h ⊢
      have hline : ∀ d ∈ body ++ [';'], (d != '\n') = true := by
        intro d hd
        rw [bne_iff_ne]
        rcases List.mem_append.mp hd with hd | hd
        · exact (isFiller_eq_true.mp (h d (List.mem_append_right _ hd))).2.2.1
        · rw [List.mem_singleton.mp hd]
          decide
      rw [if_pos (List.prefix_append _ body).isInfix, List.append_assoc, List.append_cons body]
      exact (specifiers_lineComment _).trans
        (congrArg specifiers (List.dropWhile_append_of_pos hline))
    · have hwithin : ['/', '/'] <:+: c :: t ↔ ['/', '/'] <:+: t := by
        rw [List.infix_cons_iff, or_iff_right hcomment]
      have hopens : c = '/' → t.head? ≠ some '/' ∧ t.head? ≠ some '*' := by
        rintro rfl
        refine ⟨fun hhead => hcomment ?_, fun hhead => hstar' (List.mem_of_mem_head? hhead)⟩
        obtain ⟨body, rfl⟩ := List.head?_eq_some_iff.mp hhead
        exact List.prefix_append ['/', '/'] body
      rw [List.cons_append, specifiers_cons_of_inert h hopens, ih ht hstar']
      simp only [hwithin]

theorem specifiers_unquoted (h : Inert v) (hstar : '*' ∉ v) (rest : Text) :
    specifiers ("@import url(" ++ v ++ ");" ++ rest) =
      specifiers (if ['/', '/'] <:+: v then rest.dropWhile (· != '\n') else rest) := by
  have hinert : Inert ("@import url(" ++ v ++ [')']) :=
    List.forall_mem_append.mpr ⟨List.forall_mem_append.mpr ⟨by decide, h⟩, by decide⟩
  have hstar' : '*' ∉ ("@import url(" ++ v ++ [')'] : Text) := by
    simpa using hstar
  have hsource : "@import url(" ++ v ++ ");" ++ rest =
      "@import url(" ++ v ++ [')'] ++ ';' :: rest := by simp
  have hwithin : ['/', '/'] <:+: "@import url(" ++ v ++ [')'] ↔ ['/', '/'] <:+: v :=
    Text.slashes_infix_append (by decide) (by decide)
  rw [hsource, specifiers_of_inert hinert hstar']
  simp only [hwithin]

/-- What is left of a source behind an import of an unquoted url.  If two slashes stand in the url,
the rest of the line is gone; otherwise nothing is, and only then is the import no matter for
whatever may follow it. -/
theorem unquoted_passed (h : Inert v) (hstar : '*' ∉ v) :
    (∀ rest, specifiers ("@import url(" ++ v ++ ");" ++ rest) =
      specifiers (if ['/', '/'] <:+: v then rest.dropWhile (· != '\n') else rest)) ∧
    ((∀ rest, specifiers ("@import url(" ++ v ++ ");" ++ rest) = specifiers rest) ↔
      ¬['/', '/'] <:+: v) := by
  refine ⟨specifiers_unquoted h hstar, fun hsame hslashes => ?_, fun hslashes rest => ?_⟩
  · -- A directive on the same line is lost.
    have hlost := (specifiers_unquoted h hstar "@import \"x\"").symm.trans (hsame "@import \"x\"")
    rw [if_pos hslashes] at hlost
    exact absurd hlost (by decide +kernel)
  · rw [specifiers_unquoted h hstar, if_neg hslashes]

/-- A plain file name is passed, and the directive behind it is found. -/
theorem unquoted_passed_name : Inert "a.css" ∧ '*' ∉ ("a.css" : Text) ∧
    specifiers ("@import url(" ++ "a.css" ++ ");" ++ "@import \"b\";") = ["b"] := by
  have hinert : Inert "a.css" := by decide
  have hstar : '*' ∉ ("a.css" : Text) := by decide
  exact ⟨hinert, hstar, ((unquoted_passed hinert hstar).1 _).trans (by decide +kernel)⟩

/-- An address of a server has two slashes in it. -/
theorem unquoted_swallows : Inert "http://h/a.css" ∧ '*' ∉ ("http://h/a.css" : Text) ∧
    specifiers ("@import url(" ++ "http://h/a.css" ++ ");" ++ "@import \"b\";") = [] ∧
    specifiers "@import \"b\";" = ["b"] := by
  decide +kernel

end Directive

end StyleBatch
