import Mathlib.Data.List.Infix
import StyleBatch.Proofs.Spans

/-!
# What stands in a comment

A block comment is passed over, whatever stands in it, so two sources that differ in the body of a
comment have the same imports.  The one place where that is not so is inside an import statement:
between the keyword and the quote anything may stand, and there the text of a comment is read like
any other.

* `Lexeme.first_cases`: what a text without slashes and quotes begins with.
* `Directive.specifiers_congr`: two texts behind it that are read alike.
* `Directive.comments_skipped`: a comment is passed over wherever no statement is open.
-/

namespace StyleBatch

namespace Stretch

/-- A text behind the keyword that belongs to the statement to its end. -/
def Pending (rest : Text) : Prop :=
  rest = [] ∨ Filler rest

/-- The text ends within an import statement, before its quote. -/
def Open (t : Text) : Prop :=
  ∃ rest, Lexeme.keyword ++ rest <:+ t ∧ Pending rest

/-- Nothing in the text ends a statement or opens a specifier. -/
def Inert (t : Text) : Prop :=
  ∀ c ∈ t, Lexeme.isFiller c = true

/-- The text ends a statement before it can open a specifier. -/
def Ends (t : Text) : Prop :=
  ∃ front c back, t = front ++ c :: back ∧ Inert front ∧ (c = ';' ∨ c = '\r' ∨ c = '\n')

/-- No slash and no quote: whatever is open at the end of the text, it is no comment and no
literal. -/
def Bare (t : Text) : Prop :=
  ∀ c ∈ t, c ≠ '/' ∧ ¬Quote c

instance : DecidablePred Pending := fun _ => inferInstanceAs (Decidable (_ ∨ _))

instance : DecidablePred Inert := fun t => List.decidableBAll _ t

instance : DecidablePred Bare := fun t => List.decidableBAll _ t

theorem open_iff {t : Text} : Open t ↔ ∃ s ∈ t.tails, Lexeme.keyword <+: s ∧
    Pending (s.drop Lexeme.keyword.length) := by
  constructor
  · rintro ⟨rest, hsuffix, hpending⟩
    exact ⟨_, (List.mem_tails _ _).mpr hsuffix, List.prefix_append _ _, by rwa [List.drop_left]⟩
  · rintro ⟨s, hs, ⟨rest, rfl⟩, hpending⟩
    rw [List.drop_left] at hpending
    exact ⟨rest, (List.mem_tails _ _).mp hs, hpending⟩

instance : DecidablePred Open := fun _ => decidable_of_iff _ open_iff.symm

end Stretch

open Stretch (Quote Filler WordChar importWord Pending Open Inert Ends Bare)

namespace Lexeme

variable {a rest tail : Text} {c : Char}

/-- The specifier of a directive. -/
def specifier? : Lexeme → Option Text
  | plain _ => none
  | directive _ _ specifier => some specifier

theorem map_specifier_directives (offset : Nat) (ls : List Lexeme) :
    (directives offset ls).map Directive.specifier = ls.filterMap specifier? := by
  induction ls generalizing offset with
  | nil => rfl
  | cons lexeme rest ih =>
    cases lexeme with
    | plain t => exact ih _
    | directive filler quote specifier => exact congrArg (specifier :: ·) (ih _)

theorem isFiller_eq_true : isFiller c = true ↔ c ≠ ';' ∧ c ≠ '\r' ∧ c ≠ '\n' ∧ ¬Quote c := by
  rw [Bytewise.isFiller_iff]
  simp only [Quote, not_or]
  tauto

theorem not_inert_of_ends (h : Ends rest) : ¬Inert rest := by
  obtain ⟨front, c, back, rfl, -, hc⟩ := h
  intro hinert
  have hfiller := isFiller_eq_true.mp (hinert c (by simp))
  rcases hc with rfl | rfl | rfl
  · exact hfiller.1 rfl
  · exact hfiller.2.1 rfl
  · exact hfiller.2.2.1 rfl

/-- A statement goes on with what may stand in it. -/
theorem filler_of_pending {more : Text} (h : Pending rest) (hmore : Filler more) :
    Filler (rest ++ more) := by
  rcases h with rfl | h
  · exact hmore
  · refine ⟨List.append_ne_nil_of_left_ne_nil h.1 _, ?_,
      List.forall_mem_append.mpr ⟨h.2.2, hmore.2.2⟩⟩
    rw [List.head?_append_of_ne_nil _ h.1]
    exact h.2.1

theorem inert_of_pending (h : Pending rest) : Inert rest := by
  rcases h with rfl | h
  · exact fun c hc => absurd hc List.not_mem_nil
  · exact fun c hc => isFiller_eq_true.mpr (h.2.2 c hc)

/-- A statement that ends before a quote has no specifier. -/
theorem afterKeyword?_of_ends (h : Ends rest) (tail : Text) :
    afterKeyword? (rest ++ tail) = none := by
  obtain ⟨front, c, back, rfl, hfront, hc⟩ := h
  have hfiller : isFiller c = false := by
    rcases hc with rfl | rfl | rfl <;> rfl
  have hquote : isQuote c = false := by
    rcases hc with rfl | rfl | rfl <;> rfl
  have hdrop : (front ++ c :: back ++ tail).dropWhile isFiller = c :: (back ++ tail) := by
    rw [List.append_assoc, List.dropWhile_append_of_pos hfront, List.cons_append,
      List.dropWhile_cons_of_neg (by simp [hfiller])]
  rw [Bytewise.afterKeyword?_of_dropWhile hdrop, hquote]
  rfl

/-- The keyword does not go on across a character that is not in it. -/
theorem isPrefix_of_not_mem (hc : c ∉ keyword) (h : keyword <+: a ++ c :: tail) :
    keyword <+: a := by
  rcases List.prefix_or_prefix_of_prefix h (List.prefix_append a _) with h' | ⟨more, hmore⟩
  · exact h'
  · rw [← hmore, List.prefix_append_right_inj] at h
    cases more with
    | nil =>
      rw [List.append_nil] at hmore
      exact hmore ▸ List.prefix_rfl
    | cons d more =>
      rw [(List.cons_prefix_cons.mp h).1] at hmore
      exact absurd (hmore ▸ List.mem_append_right a List.mem_cons_self) hc

theorem atWord_of_not_keyword (h : ¬keyword <+: '@' :: rest) : atWord rest = plain ['@'] := by
  have hafter : Text.after? keyword ('@' :: rest) = none := by
    rw [Text.after?, if_neg (mt List.isPrefixOf_iff_prefix.mp h)]
  rw [atWord, hafter]

/-- Another keyword begins behind the first one. -/
theorem suffix_of_keyword {s : Text} (h : keyword ++ s <:+ keyword ++ rest) :
    s = rest ∨ keyword ++ s <:+ rest := by
  have hbehind : ∀ front : Text, '@' ∉ front → keyword ++ s <:+ front ++ rest →
      keyword ++ s <:+ rest := by
    intro front hfront h
    induction front with
    | nil => exact h
    | cons c front ih =>
      obtain ⟨hc, hfront⟩ := not_or.mp (mt List.mem_cons.mpr hfront)
      rcases List.suffix_cons_iff.mp h with heq | h
      · exact absurd (List.cons.inj heq).1 hc
      · exact ih hfront h
  rcases List.suffix_cons_iff.mp h with heq | h
  · exact .inl (List.append_cancel_left heq)
  · exact .inr (hbehind importWord (by decide) h)

/-- Behind the keyword a statement begins, unless a word goes on. -/
theorem atWord_importWord (c : Char) (more : Text) : atWord (importWord ++ c :: more) =
    if isWordChar c then plain ['@'] else (afterKeyword? (c :: more)).getD (plain keyword) := by
  have hafter : Text.after? keyword ('@' :: (importWord ++ c :: more)) = some (c :: more) := rfl
  rw [atWord, hafter]

theorem ends_or_inert (h : Bare a) : Ends a ∨ Inert a := by
  induction a with
  | nil => exact .inr fun c hc => absurd hc List.not_mem_nil
  | cons c a ih =>
    obtain ⟨hc, ha⟩ := List.forall_mem_cons.mp h
    by_cases hfiller : isFiller c = true
    · rcases ih ha with ⟨front, d, back, rfl, hfront, hd⟩ | hinert
      · exact .inl ⟨c :: front, d, back, rfl, List.forall_mem_cons.mpr ⟨hfiller, hfront⟩, hd⟩
      · exact .inr (List.forall_mem_cons.mpr ⟨hfiller, hinert⟩)
    · refine .inl ⟨[], c, a, rfl, fun c hc => absurd hc List.not_mem_nil, ?_⟩
      rw [isFiller_eq_true] at hfiller
      by_contra hend
      simp only [not_or] at hend
      exact hfiller ⟨hend.1, hend.2.1, hend.2.2, hc.2⟩

/-- What stands at the start of a text without slashes and quotes, with a slash behind the text:
a plain character, the keyword of a statement that the text ends, or that of one it does not end. -/
theorem first_cases (h : Bare (c :: a)) :
    ((∀ rest, Pending rest → keyword ++ rest ≠ c :: a) ∧
        ∀ tail, first c (a ++ '/' :: tail) = plain [c]) ∨
      ∃ rest, keyword ++ rest = c :: a ∧ (Ends rest ∨ Pending rest) ∧
        ∀ tail, first c (a ++ '/' :: tail) =
          (afterKeyword? (rest ++ '/' :: tail)).getD (plain keyword) := by
  obtain ⟨⟨hslash, hquote⟩, ha⟩ := List.forall_mem_cons.mp h
  by_cases hat : c = '@'
  · subst hat
    by_cases hkeyword : keyword <+: '@' :: a
    · obtain ⟨rest, hrest⟩ := hkeyword
      obtain rfl : importWord ++ rest = a := (List.cons.inj hrest).2
      cases rest with
      | nil => exact .inr ⟨[], rfl, .inr (.inl rfl), fun tail => atWord_importWord '/' tail⟩
      | cons d rest =>
        have hfirst : ∀ tail, first '@' (importWord ++ d :: rest ++ '/' :: tail) =
            if isWordChar d then plain ['@']
            else (afterKeyword? (d :: rest ++ '/' :: tail)).getD (plain keyword) := fun tail => by
          rw [first_at, List.append_assoc]
          exact atWord_importWord d (rest ++ '/' :: tail)
        by_cases hword : WordChar d
        · refine .inl ⟨?_, fun tail => by rw [hfirst, if_pos (isWordChar_iff.mpr hword)]⟩
          rintro rest' hpending heq
          obtain rfl : rest' = d :: rest := List.append_cancel_left heq
          exact (hpending.resolve_left (List.cons_ne_nil _ _)).2.1 d rfl hword
        · refine .inr ⟨d :: rest, rfl, ?_, fun tail => by
            rw [hfirst, if_neg (isWordChar_iff.not.mpr hword)]⟩
          refine (ends_or_inert fun e he => ha e (List.mem_append_right _ he)).imp_right fun h =>
            .inr ⟨List.cons_ne_nil _ _, fun e he => ?_, fun e he => isFiller_eq_true.mp (h e he)⟩
          obtain rfl : d = e := Option.some.inj he
          exact hword
    · exact .inl ⟨fun rest _ heq => hkeyword ⟨rest, heq⟩, fun tail => atWord_of_not_keyword
        fun hstarts => hkeyword (isPrefix_of_not_mem (by decide) hstarts)⟩
  · refine .inl ⟨fun rest _ heq => hat (List.cons.inj heq).1.symm, fun tail => ?_⟩
    exact first_of_plain ⟨hslash, hat, hquote⟩ _

/-- Behind a keyword two texts have no specifier, or the same one with the same text behind it. -/
inductive Alike (t t' : Text) : Prop
  | nothing : afterKeyword? t = none → afterKeyword? t' = none → Alike t t'
  | specifier {filler filler' specifier tail : Text} {quote : Char} :
      afterKeyword? t = some (directive filler quote specifier) →
      afterKeyword? t' = some (directive filler' quote specifier) →
      (directive filler quote specifier).text ++ tail = keyword ++ t →
      (directive filler' quote specifier).text ++ tail = keyword ++ t' → Alike t t'

theorem Inert.append {t t' : Text} (h : Inert t) (h' : Inert t') : Inert (t ++ t') :=
  List.forall_mem_append.mpr ⟨h, h'⟩

theorem Ends.append {t t' : Text} (h : Inert t) (h' : Ends t') : Ends (t ++ t') := by
  obtain ⟨front, c, back, rfl, hfront, hc⟩ := h'
  exact ⟨t ++ front, c, back, (List.append_assoc ..).symm, Inert.append h hfront, hc⟩

/-- A comment leaves a statement open if its body does. -/
theorem inert_blockComment {body : Text} (h : Inert body) :
    Inert (Stretch.blockComment body).text := by
  have hopening : Inert ['/', '*'] := by decide
  have hclosing : Inert ['*', '/'] := by decide
  exact Inert.append hopening (Inert.append h hclosing)

/-- It ends a statement if its body does. -/
theorem ends_blockComment {body : Text} (h : Ends body) :
    Ends (Stretch.blockComment body).text := by
  have hopening : Inert ['/', '*'] := by decide
  obtain ⟨front, c, back, rfl, hfront, hc⟩ := h
  exact Ends.append hopening
    ⟨front, c, back ++ ['*', '/'], List.append_assoc front (c :: back) _, hfront, hc⟩

theorem alike_of_ends {t t' : Text} (h : Ends t) (h' : Ends t') (tail tail' : Text) :
    Alike (t ++ tail) (t' ++ tail') :=
  .nothing (afterKeyword?_of_ends h tail) (afterKeyword?_of_ends h' tail')

/-- Where a statement goes on through a text, its quote and its specifier stand behind the text. -/
theorem afterKeyword?_inert (tail : Text) :
    (∀ front, Inert front → afterKeyword? (front ++ tail) = none) ∨
      ∃ more quote specifier behind, tail = more ++ quote :: (specifier ++ quote :: behind) ∧
        ∀ front, Inert front → front ≠ [] →
          afterKeyword? (front ++ tail) = some (directive (front ++ more) quote specifier) := by
  have hdrop : ∀ {front : Text}, Inert front →
      (front ++ tail).dropWhile isFiller = tail.dropWhile isFiller :=
    fun h => List.dropWhile_append_of_pos h
  cases hquote : tail.dropWhile isFiller with
  | nil =>
    refine .inl fun front h => ?_
    rw [afterKeyword?, hdrop h, hquote]
  | cons quote rest =>
    have hread : ∀ {front : Text}, Inert front → _ := fun {front} h =>
      Bytewise.afterKeyword?_of_dropWhile (t := front ++ tail) ((hdrop h).trans hquote)
    by_cases hclosed : (isQuote quote && !(rest.takeWhile (Bytewise.isInside quote)).isEmpty &&
        (rest.dropWhile (Bytewise.isInside quote)).head? == some quote) = true
    · simp only [Bool.and_eq_true, beq_iff_eq] at hclosed
      obtain ⟨behind, hbehind⟩ := List.head?_eq_some_iff.mp hclosed.2
      refine .inr ⟨tail.takeWhile isFiller, quote, rest.takeWhile (Bytewise.isInside quote), behind,
        ?_, fun front h hne => ?_⟩
      · rw [← hbehind, List.takeWhile_append_dropWhile, ← hquote, List.takeWhile_append_dropWhile]
      · have hfront : (!(front ++ tail.takeWhile isFiller).isEmpty) = true := by simp [hne]
        rw [hread h, List.takeWhile_append_of_pos h, hfront, hclosed.1.1, hclosed.1.2, hclosed.2]
        simp
    · refine .inl fun front h => ?_
      rw [hread h, if_neg]
      intro hall
      simp only [Bool.and_eq_true] at hall hclosed
      exact hclosed ⟨⟨hall.1.1.1, hall.1.2⟩, hall.2⟩

/-- What stands before the quote does not matter. -/
theorem alike_of_inert {t t' : Text} (h : Inert t) (h' : Inert t') (hne : t ≠ []) (hne' : t' ≠ [])
    (tail : Text) : Alike (t ++ tail) (t' ++ tail) := by
  rcases afterKeyword?_inert tail with hnone | ⟨more, quote, specifier, behind, rfl, hsome⟩
  · exact .nothing (hnone t h) (hnone t' h')
  · have htext : ∀ front, (directive (front ++ more) quote specifier).text ++ behind =
        keyword ++ (front ++ (more ++ quote :: (specifier ++ quote :: behind))) := by
      simp [text]
    exact .specifier (hsome t h hne) (hsome t' h' hne') (htext t) (htext t')

end Lexeme

namespace Directive

open Lexeme

variable {a : Text}

theorem specifiers_eq (t : Text) : specifiers t = (listAfter 0 t).filterMap specifier? := by
  rw [specifiers, scan_eq_directives, map_specifier_directives, lexemes]

theorem specifiers_of_first {c : Char} {rest tail : Text} {lexeme : Lexeme}
    (hfirst : first c rest = lexeme) (h : lexeme.text ++ tail = c :: rest) :
    specifiers (c :: rest) = lexeme.specifier?.toList ++ specifiers tail := by
  rw [specifiers_eq, specifiers_eq, listAfter_cons tail hfirst h, List.filterMap_cons]
  cases lexeme.specifier? <;> rfl

/-- Two texts that are read alike behind a text, also where a statement is open there. -/
theorem specifiers_congr {tail tail' : Text} (ha : Bare a)
    (hsame : specifiers ('/' :: tail) = specifiers ('/' :: tail'))
    (halike : ∀ rest, keyword ++ rest <:+ a → Pending rest →
      Alike (rest ++ '/' :: tail) (rest ++ '/' :: tail')) :
    specifiers (a ++ '/' :: tail) = specifiers (a ++ '/' :: tail') := by
  induction hlength : a.length using Nat.strong_induction_on generalizing a with
  | _ n ih =>
    subst hlength
    cases a with
    | nil => exact hsame
    | cons c a =>
      have hrest : ∀ rest, rest <:+ c :: a → rest.length < (c :: a).length →
          specifiers (rest ++ '/' :: tail) = specifiers (rest ++ '/' :: tail') :=
        fun rest hsuffix hlt => ih _ hlt (fun d hd => ha d (hsuffix.mem hd))
          (fun rest' hrest' => halike rest' (hrest'.trans hsuffix)) rfl
      rw [List.cons_append, List.cons_append]
      rcases first_cases ha with ⟨-, hfirst⟩ | ⟨rest, heq, hstatement, hfirst⟩
      · rw [specifiers_of_first (hfirst tail) rfl, specifiers_of_first (hfirst tail') rfl]
        exact congrArg _ (hrest a (List.suffix_cons c a) (Nat.lt_succ_self _))
      · have hwhole : ∀ t : Text, keyword ++ (rest ++ t) = c :: (a ++ t) := fun t => by
          rw [← List.append_assoc, heq, List.cons_append]
        have halike : Alike (rest ++ '/' :: tail) (rest ++ '/' :: tail') :=
          hstatement.elim (fun h => alike_of_ends h h _ _)
            (halike rest ⟨[], by rw [heq, List.nil_append]⟩)
        cases halike with
        | nothing h h' =>
          have hplain := hfirst tail
          have hplain' := hfirst tail'
          rw [h, Option.getD_none] at hplain
          rw [h', Option.getD_none] at hplain'
          rw [specifiers_of_first hplain (hwhole _), specifiers_of_first hplain' (hwhole _)]
          refine congrArg _ (hrest rest ⟨keyword, heq⟩ ?_)
          rw [← heq, List.length_append]
          exact Nat.lt_add_of_pos_left (by decide)
        | specifier h h' htext htext' =>
          have hdirective := hfirst tail
          have hdirective' := hfirst tail'
          rw [h, Option.getD_some] at hdirective
          rw [h', Option.getD_some] at hdirective'
          rw [specifiers_of_first hdirective (htext.trans (hwhole _)),
            specifiers_of_first hdirective' (htext'.trans (hwhole _))]
          rfl

/-- A text without quotes has no imports. -/
theorem specifiers_eq_nil {t : Text} (h : ∀ c ∈ t, ¬Quote c) : specifiers t = [] := by
  rw [specifiers, List.map_eq_nil_iff, List.eq_nil_iff_forall_not_mem]
  intro d hd
  obtain ⟨before, filler, quote, after, rfl, -, -, -, hquote, -⟩ := covers_of_mem_scan hd
  exact h quote (by simp [Lexeme.text]) hquote

/-- Where a statement is open, what is quoted in a comment is its specifier. -/
theorem specifiers_ne_nil (ha : Bare a) (hopen : Open a) :
    specifiers (a ++ (Stretch.blockComment "\"x\"").text) ≠ [] := by
  induction hlength : a.length using Nat.strong_induction_on generalizing a with
  | _ n ih =>
    subst hlength
    obtain ⟨open', hsuffix, hpending⟩ := hopen
    cases a with
    | nil => exact absurd (List.suffix_nil.mp hsuffix) (List.cons_ne_nil _ _)
    | cons c a =>
      have hrest : ∀ rest, rest <:+ c :: a → rest.length < (c :: a).length →
          keyword ++ open' <:+ rest →
            specifiers (rest ++ (Stretch.blockComment "\"x\"").text) ≠ [] :=
        fun rest hrest hlt hopen => ih _ hlt (fun d hd => ha d (hrest.mem hd))
          ⟨open', hopen, hpending⟩ rfl
      rw [List.cons_append]
      rcases first_cases ha with ⟨hnot, hfirst⟩ | ⟨rest, heq, hstatement, hfirst⟩
      · rw [Stretch.text, specifiers_of_first (hfirst _) rfl]
        rcases List.suffix_cons_iff.mp hsuffix with heq | hsuffix
        · exact absurd heq (hnot open' hpending)
        · exact hrest a (List.suffix_cons c a) (Nat.lt_succ_self _) hsuffix
      · have hwhole : ∀ t : Text, keyword ++ (rest ++ t) = c :: (a ++ t) := fun t => by
          rw [← List.append_assoc, heq, List.cons_append]
        rcases hstatement with hends | hpending'
        · have hread := hfirst ('*' :: ("\"x\"" ++ ['*', '/']))
          rw [afterKeyword?_of_ends hends, Option.getD_none] at hread
          rw [Stretch.text, specifiers_of_first hread (hwhole _)]
          rw [← heq] at hsuffix
          rcases suffix_of_keyword hsuffix with rfl | hsuffix
          · exact absurd (inert_of_pending hpending) (not_inert_of_ends hends)
          · refine hrest rest ⟨keyword, heq⟩ ?_ hsuffix
            rw [← heq, List.length_append]
            exact Nat.lt_add_of_pos_left (by decide)
        · have hfiller : Filler (rest ++ ['/', '*']) := filler_of_pending hpending' (by decide)
          have hquoted : Stretch.Quoted '"' ['x'] := by decide
          have hafter := afterKeyword?_append (.inl rfl) hfiller hquoted ['*', '/']
          rw [List.append_assoc] at hafter
          have hread := (hfirst _).trans (congrArg (·.getD (plain keyword)) hafter)
          have htext : (directive (rest ++ ['/', '*']) '"' ['x']).text ++ ['*', '/'] =
              c :: (a ++ (Stretch.blockComment "\"x\"").text) := by
            rw [← hwhole]
            simp [Lexeme.text, Stretch.text]
          have hspecifier := specifiers_of_first hread htext
          exact fun hnil => List.cons_ne_nil _ _ (hspecifier.symm.trans hnil)

theorem specifiers_blockComment {body : Text} (h : (Stretch.blockComment body).Closed)
    (tail : Text) : specifiers ((Stretch.blockComment body).text ++ tail) = specifiers tail := by
  rw [specifiers_eq, specifiers_eq, Stretch.listAfter_text h]
  rfl

/-- Wherever no statement is open, a block comment is passed over, so what stands in it is no
matter, and nowhere else is that so.  Where a statement is open, it is no matter as long as both
bodies leave the statement open or both end it. -/
theorem comments_skipped (ha : Bare a) :
    (¬Open a ↔ ∀ c₁ c₂ b, (Stretch.blockComment c₁).Closed → (Stretch.blockComment c₂).Closed →
      specifiers (a ++ (Stretch.blockComment c₁).text ++ b) =
        specifiers (a ++ (Stretch.blockComment c₂).text ++ b)) ∧
      ∀ c₁ c₂ b, (Stretch.blockComment c₁).Closed → (Stretch.blockComment c₂).Closed →
        Inert c₁ ∧ Inert c₂ ∨ Ends c₁ ∧ Ends c₂ →
          specifiers (a ++ (Stretch.blockComment c₁).text ++ b) =
            specifiers (a ++ (Stretch.blockComment c₂).text ++ b) := by
  have hcongr : ∀ c₁ c₂ b, (Stretch.blockComment c₁).Closed → (Stretch.blockComment c₂).Closed →
      (∀ rest, keyword ++ rest <:+ a → Pending rest →
        Alike (rest ++ ((Stretch.blockComment c₁).text ++ b))
          (rest ++ ((Stretch.blockComment c₂).text ++ b))) →
        specifiers (a ++ (Stretch.blockComment c₁).text ++ b) =
          specifiers (a ++ (Stretch.blockComment c₂).text ++ b) := by
    intro c₁ c₂ b h₁ h₂ halike
    rw [List.append_assoc, List.append_assoc]
    refine specifiers_congr ha ?_ halike
    exact (specifiers_blockComment h₁ b).trans (specifiers_blockComment h₂ b).symm
  refine ⟨⟨fun hopen c₁ c₂ b h₁ h₂ => hcongr c₁ c₂ b h₁ h₂ fun rest hsuffix hpending =>
    absurd ⟨rest, hsuffix, hpending⟩ hopen, fun hsame hopen => ?_⟩, fun c₁ c₂ b h₁ h₂ hbodies => ?_⟩
  · have hblank : specifiers (a ++ (Stretch.blockComment []).text ++ []) = [] := by
      have hcomment : ∀ c ∈ (Stretch.blockComment []).text ++ [], ¬Quote c := by decide
      rw [List.append_assoc]
      exact specifiers_eq_nil (List.forall_mem_append.mpr ⟨fun c hc => (ha c hc).2, hcomment⟩)
    have hquoted := hsame "\"x\"" [] [] (by decide) (by decide)
    rw [hblank, List.append_nil] at hquoted
    exact specifiers_ne_nil ha hopen hquoted
  · refine hcongr c₁ c₂ b h₁ h₂ fun rest _ hpending => ?_
    have hrest := inert_of_pending hpending
    rw [← List.append_assoc, ← List.append_assoc]
    rcases hbodies with ⟨h₁, h₂⟩ | ⟨h₁, h₂⟩
    · exact alike_of_inert (Inert.append hrest (inert_blockComment h₁))
        (Inert.append hrest (inert_blockComment h₂)) (by simp [Stretch.text])
        (by simp [Stretch.text]) b
    · exact alike_of_ends (Ends.append hrest (ends_blockComment h₁))
        (Ends.append hrest (ends_blockComment h₂)) b b

section Url

/-- A statement without a quoted name. -/
def unquoted : Text :=
  "@import url(a.css) "

/-- Behind the semicolon a comment may hold any import. -/
theorem comments_skipped_closed : Bare (unquoted ++ ";") ∧ ¬Open (unquoted ++ ";") ∧
    specifiers
        (unquoted ++ ";" ++ (Stretch.blockComment "@import \"x\";").text ++ "@import \"y\"") =
      specifiers (unquoted ++ ";" ++ (Stretch.blockComment []).text ++ "@import \"y\"") := by
  have hbare : Bare (unquoted ++ ";") := by decide +kernel
  have hopen : ¬Open (unquoted ++ ";") := by decide +kernel
  exact ⟨hbare, hopen,
    (comments_skipped hbare).1.mp hopen _ _ _ (by decide +kernel) (by decide +kernel)⟩

/-- Before the semicolon it is read: what is quoted there is the specifier of the statement. -/
theorem comment_read : Bare unquoted ∧ (Stretch.blockComment "@import \"x\";").Closed ∧
    (Stretch.blockComment []).Closed ∧
    specifiers (unquoted ++ (Stretch.blockComment "@import \"x\";").text ++ ";") = ["x"] ∧
      specifiers (unquoted ++ (Stretch.blockComment []).text ++ ";") = [] := by
  decide +kernel

end Url

end Directive

end StyleBatch
