import StyleBatch.Proofs.Unquoted

/-!
# Line ends

A scan goes over a source line by line.  What is read on a line does not depend on the lines below,
and what it leaves to them is code, an open comment, or a literal with a backslash before the line
feed.  With a carriage return before the line feed the first two are the same; the literal is not,
because the backslash takes the carriage return with it and the line feed ends the literal.

* `Lexeme.begins`: what begins on a line, and how it ends.
* `Directive.exists_passes`: what a line has, and what it leaves to the next one.
* `Directive.line_ends_kept`: sources of which the line feeds can be changed.
-/

namespace StyleBatch

open Stretch (Quote importWord)

namespace Text

/-- The text with a carriage return before each line feed. -/
def withReturns (t : Text) : Text :=
  t.flatMap fun c => if c = '\n' then ['\r', '\n'] else [c]

theorem withReturns_of_not_mem {t : Text} (h : '\n' ∉ t) : withReturns t = t := by
  induction t with
  | nil => rfl
  | cons c t ih =>
    obtain ⟨hc, ht⟩ := not_or.mp (mt List.mem_cons.mpr h)
    rw [withReturns, List.flatMap_cons, if_neg (Ne.symm hc), ← withReturns, ih ht,
      List.singleton_append]

theorem withReturns_line {u : Text} (hu : '\n' ∉ u) (t : Text) :
    withReturns (u ++ '\n' :: t) = u ++ '\r' :: '\n' :: withReturns t := by
  rw [withReturns, List.flatMap_append, ← withReturns, withReturns_of_not_mem hu,
    List.flatMap_cons, if_pos rfl, ← withReturns, List.cons_append, List.singleton_append]

section While

variable {p : Char → Bool} {e : Char} (he : p e = false) (u t : Text)
include he

theorem takeWhile_append_cons : (u ++ e :: t).takeWhile p = u.takeWhile p := by
  induction u with
  | nil => exact List.takeWhile_cons_of_neg (by simp [he])
  | cons c u ih => rw [List.cons_append, List.takeWhile_cons, List.takeWhile_cons, ih]

theorem dropWhile_append_cons : (u ++ e :: t).dropWhile p = u.dropWhile p ++ e :: t := by
  induction u with
  | nil => exact List.dropWhile_cons_of_neg (by simp [he])
  | cons c u ih =>
    rw [List.cons_append, List.dropWhile_cons, List.dropWhile_cons, ih]
    split <;> rfl

end While

end Text

namespace Lexeme

variable {c e quote : Char} {u : Text}

/-! ## What begins on a line -/

theorem not_special_of_isLineEnd (he : isLineEnd e = true) :
    isFiller e = false ∧ isQuote e = false ∧ isWordChar e = false ∧ e ∉ keyword ∧ e ≠ '*' ∧
      e ≠ '/' := by
  obtain rfl | rfl : e = '\n' ∨ e = '\r' := by simpa [isLineEnd] using he
  all_goals decide

/-- A statement is read up to the end of the line. -/
theorem afterKeyword?_line (he : isLineEnd e = true) (u t : Text) :
    afterKeyword? (u ++ e :: t) = afterKeyword? u := by
  obtain ⟨hfiller, hquote, -⟩ := not_special_of_isLineEnd he
  have hdrop := Text.dropWhile_append_cons hfiller u t
  cases hopening : u.dropWhile isFiller with
  | nil =>
    rw [hopening, List.nil_append] at hdrop
    rw [Bytewise.afterKeyword?_of_dropWhile hdrop, hquote, afterKeyword?, hopening]
    rfl
  | cons quote rest =>
    rw [hopening, List.cons_append] at hdrop
    have hinside : Bytewise.isInside quote e = false := by simp [Bytewise.isInside, he]
    rw [Bytewise.afterKeyword?_of_dropWhile hdrop, Bytewise.afterKeyword?_of_dropWhile hopening,
      Text.takeWhile_append_cons hfiller, Text.takeWhile_append_cons hinside,
      Text.dropWhile_append_cons hinside]
    cases hclosing : rest.dropWhile (Bytewise.isInside quote) with
    | cons d more => rfl
    | nil =>
      by_cases heq : e = quote
      · rw [← heq, hquote]
        rfl
      · simp [heq]

theorem atWord_line (he : isLineEnd e = true) (u t : Text) :
    atWord (u ++ e :: t) = if u = importWord then plain keyword else atWord u := by
  obtain ⟨-, -, hword, hmem, -⟩ := not_special_of_isLineEnd he
  by_cases hkeyword : keyword <+: '@' :: u
  · obtain ⟨rest, hrest⟩ := hkeyword
    obtain rfl : importWord ++ rest = u := (List.cons.inj hrest).2
    cases rest with
    | nil =>
      have hnone : afterKeyword? (e :: t) = none := afterKeyword?_line he [] t
      rw [List.append_nil, if_pos rfl, atWord_importWord, hword, hnone]
      rfl
    | cons d more =>
      have hread : afterKeyword? (d :: (more ++ e :: t)) = afterKeyword? (d :: more) :=
        afterKeyword?_line he (d :: more) t
      rw [if_neg (by simp), List.append_assoc, List.cons_append, atWord_importWord, hread,
        atWord_importWord]
  · have hne : u ≠ importWord := fun heq => hkeyword (heq ▸ List.prefix_rfl)
    have hnot : ¬keyword <+: '@' :: (u ++ e :: t) :=
      fun hstarts => hkeyword (isPrefix_of_not_mem hmem hstarts)
    rw [if_neg hne, atWord_of_not_keyword hkeyword, atWord_of_not_keyword hnot]

/-- A comment ends on the line, or goes on behind it. -/
theorem blockComment_line (u : Text) :
    (∃ body tail, body ++ tail = u ∧
        ∀ e t, isLineEnd e = true → blockComment (u ++ e :: t) = body) ∨
      ∀ e t, isLineEnd e = true → blockComment (u ++ e :: t) = u ++ e :: blockComment t := by
  fun_induction blockComment u with
  | case1 rest => exact .inl ⟨['*', '/'], rest, rfl, fun e t _ => rfl⟩
  | case2 c rest hopen ih =>
    have hcons : ∀ e t, isLineEnd e = true →
        blockComment (c :: (rest ++ e :: t)) = c :: blockComment (rest ++ e :: t) := by
      intro e t he
      rw [blockComment]
      rintro more rfl hslash
      cases rest with
      | nil => exact (not_special_of_isLineEnd he).2.2.2.2.2 (List.cons.inj hslash).1
      | cons d rest => exact hopen rest rfl (by rw [(List.cons.inj hslash).1])
    rcases ih with ⟨body, tail, rfl, hclosed⟩ | hgoes
    · exact .inl ⟨c :: body, tail, rfl, fun e t he => by
        rw [List.cons_append, hcons e t he, hclosed e t he]⟩
    · exact .inr fun e t he => by rw [List.cons_append, hcons e t he, hgoes e t he]; rfl
  | case3 =>
    refine .inr fun e t he => ?_
    rw [List.nil_append, List.nil_append, blockComment]
    rintro more rfl
    exact absurd rfl (not_special_of_isLineEnd he).2.2.2.2.1

/-- How the body of a literal fares on a line: it is closed there, it breaks off at the end, or a
backslash takes the line feed with it. -/
inductive Fares (quote : Char) (u : Text) : Prop
  | closed (body tail : Text) : body ++ tail = u →
      (∀ e t, isLineEnd e = true → stringLiteral quote (u ++ e :: t) = body) → Fares quote u
  | breaks : (∀ t, stringLiteral quote (u ++ '\n' :: t) = u ∧
      stringLiteral quote (u ++ '\r' :: '\n' :: t) = u ++ ['\r']) → Fares quote u
  | joins : (∀ t, stringLiteral quote (u ++ '\n' :: t) = u ++ '\n' :: stringLiteral quote t ∧
      stringLiteral quote (u ++ '\r' :: '\n' :: t) = u ++ ['\r']) → Fares quote u

/-- What is passed over does not matter. -/
theorem Fares.append {front : Text}
    (hpass : ∀ t, stringLiteral quote (front ++ t) = front ++ stringLiteral quote t)
    (h : Fares quote u) : Fares quote (front ++ u) := by
  cases h with
  | closed body tail htext hclosed =>
    refine .closed (front ++ body) tail ?_ fun e t he => ?_
    · rw [List.append_assoc, htext]
    · rw [List.append_assoc, hpass, hclosed e t he]
  | breaks hbreaks =>
    refine .breaks fun t => ?_
    rw [List.append_assoc, List.append_assoc, hpass, hpass, (hbreaks t).1, (hbreaks t).2,
      List.append_assoc]
    exact ⟨rfl, rfl⟩
  | joins hjoins =>
    refine .joins fun t => ?_
    rw [List.append_assoc, List.append_assoc, List.append_assoc, List.append_assoc, hpass, hpass,
      (hjoins t).1, (hjoins t).2]
    exact ⟨rfl, rfl⟩

theorem stringLiteral_quote (hquote : Quote quote) (t : Text) :
    stringLiteral quote (quote :: t) = [quote] := by
  rcases hquote with rfl | rfl <;> simp [stringLiteral]

theorem fares (hquote : Quote quote) (hu : '\n' ∉ u) : Fares quote u := by
  have hreturn : '\r' ≠ quote := by rcases hquote with rfl | rfl <;> decide
  fun_induction stringLiteral quote u with
  | case1 => exact .breaks fun t => by simp [stringLiteral, hreturn]
  | case2 => exact .joins fun t => by simp [stringLiteral]
  | case3 c rest ih =>
    have hrest : '\n' ∉ rest := fun h => hu (List.mem_cons_of_mem _ (List.mem_cons_of_mem _ h))
    have hpass : ∀ t, stringLiteral quote (['\\', c] ++ t) = ['\\', c] ++ stringLiteral quote t :=
      fun t => rfl
    exact (ih hrest).append hpass
  | case4 => exact absurd List.mem_cons_self hu
  | case5 rest => exact .closed [quote] rest rfl fun e t _ => stringLiteral_quote hquote _
  | case6 c rest hnil hcons hline hne ih =>
    have hback : c ≠ '\\' := by
      rintro rfl
      cases rest with
      | nil => exact hnil rfl rfl
      | cons d rest => exact hcons d rest rfl rfl
    have hpass : ∀ t, stringLiteral quote ([c] ++ t) = [c] ++ stringLiteral quote t := fun t => by
      simp [stringLiteral, hback, hline, hne]
    exact (ih (mt (List.mem_cons_of_mem c) hu)).append hpass

/-- How what begins on a line ends: on the line, with it, or below it. -/
inductive Begins (c : Char) (u : Text) : Prop
  | within (lexeme : Lexeme) (tail : Text) : lexeme.text ++ tail = c :: u →
      (∀ e t, isLineEnd e = true → first c (u ++ e :: t) = lexeme) → Begins c u
  | breaks : (∀ t, first c (u ++ '\n' :: t) = plain (c :: u) ∧
      first c (u ++ '\r' :: '\n' :: t) = plain (c :: (u ++ ['\r']))) → Begins c u
  | comment : ¬Quote c →
      (∀ t, first c (u ++ '\n' :: t) = plain (c :: (u ++ '\n' :: blockComment t)) ∧
        first c (u ++ '\r' :: '\n' :: t) = plain (c :: (u ++ '\r' :: '\n' :: blockComment t))) →
          Begins c u
  | joins : Quote c →
      (∀ t, first c (u ++ '\n' :: t) = plain (c :: (u ++ '\n' :: stringLiteral c t)) ∧
        first c (u ++ '\r' :: '\n' :: t) = plain (c :: (u ++ ['\r']))) → Begins c u

theorem lineComment_line (hu : '\n' ∉ u) (t : Text) :
    lineComment (u ++ '\n' :: t) = u ∧ lineComment (u ++ '\r' :: '\n' :: t) = u ++ ['\r'] := by
  have hline : ∀ c ∈ u, (c != '\n') = true := fun c hc => bne_iff_ne.mpr fun heq => hu (heq ▸ hc)
  simp [lineComment, List.takeWhile_append_of_pos hline]

theorem begins_quote (hquote : Quote c) (hu : '\n' ∉ u) : Begins c u := by
  cases fares hquote hu with
  | closed body tail htext hclosed =>
    refine .within (plain (c :: body)) tail (congrArg (c :: ·) htext) fun e t he => ?_
    rw [first_quote hquote, hclosed e t he]
  | breaks hbreaks =>
    refine .breaks fun t => ?_
    rw [first_quote hquote, first_quote hquote, (hbreaks t).1, (hbreaks t).2]
    exact ⟨rfl, rfl⟩
  | joins hjoins =>
    refine .joins hquote fun t => ?_
    rw [first_quote hquote, first_quote hquote, (hjoins t).1, (hjoins t).2]
    exact ⟨rfl, rfl⟩

theorem begins_at (u : Text) : Begins '@' u := by
  by_cases hkeyword : u = importWord
  · refine .within (plain keyword) [] (by rw [hkeyword]; rfl) fun e t he => ?_
    rw [first_at, atWord_line he, if_pos hkeyword]
  · obtain ⟨tail, htail⟩ := (atWord_isPrefix u).1
    refine .within (atWord u) tail htail fun e t he => ?_
    rw [first_at, atWord_line he, if_neg hkeyword]

theorem begins_blockComment (body : Text) : Begins '/' ('*' :: body) := by
  rcases blockComment_line body with ⟨closed, tail, rfl, hclosed⟩ | hgoes
  · refine .within (plain ('/' :: '*' :: closed)) tail rfl fun e t he => ?_
    rw [List.cons_append, first_blockComment, hclosed e t he]
  · have hfeed : ∀ t, blockComment ('\n' :: t) = '\n' :: blockComment t := fun _ => rfl
    refine .comment (by decide) fun t => ⟨?_, ?_⟩
    · rw [List.cons_append, first_blockComment, hgoes '\n' t rfl, List.cons_append]
    · rw [List.cons_append, first_blockComment, hgoes '\r' _ rfl, hfeed, List.cons_append]

theorem begins_slash (hu : '\n' ∉ u) : Begins '/' u := by
  by_cases hblock : u.head? = some '*'
  · obtain ⟨body, rfl⟩ := List.head?_eq_some_iff.mp hblock
    exact begins_blockComment body
  by_cases hline : u.head? = some '/'
  · obtain ⟨body, rfl⟩ := List.head?_eq_some_iff.mp hline
    refine .breaks fun t => ?_
    have hbody := lineComment_line (mt (List.mem_cons_of_mem '/') hu) t
    rw [List.cons_append, List.cons_append, first_lineComment, first_lineComment, hbody.1,
      hbody.2, List.cons_append]
    exact ⟨rfl, rfl⟩
  · refine .within (plain ['/']) u rfl fun e t he => ?_
    obtain ⟨-, -, -, -, hstar, hslash⟩ := not_special_of_isLineEnd he
    exact first_slash_append hstar hslash hblock hline t

theorem begins (hu : '\n' ∉ c :: u) : Begins c u := by
  have hrest : '\n' ∉ u := mt (List.mem_cons_of_mem c) hu
  by_cases hquote : Quote c
  · exact begins_quote hquote hrest
  by_cases hat : c = '@'
  · exact hat ▸ begins_at u
  by_cases hslash : c = '/'
  · exact hslash ▸ begins_slash hrest
  · exact .within (plain [c]) u rfl fun e t _ => first_of_plain ⟨hslash, hat, hquote⟩ _

/-- A string literal that goes on behind a line feed. -/
def Joins : Lexeme → Prop
  | plain (c :: body) => Quote c ∧ '\n' ∈ body
  | _ => False

instance : DecidablePred Joins
  | plain (_ :: _) => inferInstanceAs (Decidable (_ ∧ _))
  | plain [] => inferInstanceAs (Decidable False)
  | directive _ _ _ => inferInstanceAs (Decidable False)

theorem Joins.mem_text {lexeme : Lexeme} (h : lexeme.Joins) : '\n' ∈ lexeme.text := by
  cases lexeme with
  | plain t =>
    cases t with
    | nil => exact h.elim
    | cons c body => exact List.mem_cons_of_mem c h.2
  | directive filler quote specifier => exact h.elim

end Lexeme

namespace Directive

open Lexeme

variable {s u : Text}

/-! ## Line by line -/

/-- A string literal of the source goes on behind a line feed. -/
def Joined (source : Text) : Prop :=
  ∃ lexeme ∈ lexemes source, lexeme.Joins

instance : DecidablePred Joined := fun source =>
  inferInstanceAs (Decidable (∃ lexeme ∈ lexemes source, lexeme.Joins))

/-- What is open at the end of a line. -/
inductive Carry where
  | code
  | comment
  | literal (quote : Char)
deriving DecidableEq

namespace Carry

/-- What is left of a text to be read as code. -/
def rest : Carry → Text → Text
  | code, t => t
  | comment, t => t.drop (blockComment t).length
  | literal quote, t => t.drop (stringLiteral quote t).length

/-- What is open if a carriage return stands before the line feed. -/
def returned : Carry → Carry
  | literal _ => code
  | carry => carry

/-- A literal is open. -/
def Literal (carry : Carry) : Prop :=
  ∃ quote, carry = literal quote

theorem not_literal_code : ¬code.Literal := nofun

theorem not_literal_comment : ¬comment.Literal := nofun

theorem quote_of_not_literal {carry : Carry} (h : ¬carry.Literal) (quote : Char)
    (heq : carry = literal quote) : Quote quote :=
  absurd ⟨quote, heq⟩ h

theorem returned_eq {carry : Carry} (h : ¬carry.Literal) : carry.returned = carry := by
  cases carry with
  | code => rfl
  | comment => rfl
  | literal quote => exact absurd ⟨quote, rfl⟩ h

theorem rest_suffix (carry : Carry) (t : Text) : carry.rest t <:+ t := by
  cases carry with
  | code => exact List.suffix_rfl
  | comment => exact List.drop_suffix _ t
  | literal quote => exact List.drop_suffix _ t

end Carry

theorem blockComment_append_rest (t : Text) : blockComment t ++ Carry.comment.rest t = t :=
  List.prefix_iff_eq_append.mp (blockComment_isPrefix t)

theorem stringLiteral_append_rest (quote : Char) (t : Text) :
    stringLiteral quote t ++ (Carry.literal quote).rest t = t :=
  List.prefix_iff_eq_append.mp (stringLiteral_isPrefix quote t)

/-- What a line has, read from what is open before it, and what it leaves open. -/
structure Passes (start : Carry) (u : Text) (found : List Text) (carry : Carry) : Prop where
  feed : ∀ t, specifiers (start.rest (u ++ '\n' :: t)) = found ++ specifiers (carry.rest t)
  returned : ∀ t, specifiers (start.rest (u ++ '\r' :: '\n' :: t)) =
    found ++ specifiers (carry.returned.rest t)
  joined : ∀ t, Joined (start.rest (u ++ '\n' :: t)) ↔ carry.Literal ∨ Joined (carry.rest t)
  quoted : ∀ quote, carry = .literal quote → Quote quote

theorem joined_of_first {c : Char} {rest tail : Text} {lexeme : Lexeme}
    (hfirst : first c rest = lexeme) (h : lexeme.text ++ tail = c :: rest) :
    Joined (c :: rest) ↔ lexeme.Joins ∨ Joined tail := by
  rw [Joined, lexemes, listAfter_cons tail hfirst h]
  simp only [List.mem_cons, exists_eq_or_imp]
  rfl

theorem mem_of_joined (h : Joined s) : '\n' ∈ s := by
  obtain ⟨lexeme, hmem, hjoins⟩ := h
  have hsource : (lexemes s).flatMap Lexeme.text = s := flatMap_text_listAfter 0 s
  rw [← hsource]
  exact List.mem_flatMap.mpr ⟨lexeme, hmem, hjoins.mem_text⟩

theorem specifiers_feed (t : Text) : specifiers ('\n' :: t) = specifiers t :=
  specifiers_of_first_plain (first_of_plain (by decide) t)

theorem joined_feed (t : Text) : Joined ('\n' :: t) ↔ Joined t := by
  rw [joined_of_first (first_of_plain (by decide) t) rfl]
  exact or_iff_right (by decide)

/-- A line feed alone. -/
theorem passes_nil : Passes .code [] [] .code where
  feed := specifiers_feed
  returned t := (specifiers_of_first_plain (first_of_plain (by decide) _)).trans (specifiers_feed t)
  joined t := (joined_feed t).trans (or_iff_right Carry.not_literal_code).symm
  quoted := Carry.quote_of_not_literal Carry.not_literal_code

section Begins

variable {c : Char} {found : List Text} {carry : Carry}

/-- What begins and ends on a line is read, and then what follows it. -/
theorem Passes.cons {lexeme : Lexeme} {tail : Text} (htext : lexeme.text ++ tail = c :: u)
    (hfirst : ∀ e t, isLineEnd e = true → first c (u ++ e :: t) = lexeme) (hu : '\n' ∉ c :: u)
    (h : Passes .code tail found carry) :
    Passes .code (c :: u) (lexeme.specifier?.toList ++ found) carry := by
  have hwhole : ∀ t, lexeme.text ++ (tail ++ t) = c :: (u ++ t) := fun t => by
    rw [← List.append_assoc, htext, List.cons_append]
  have hjoins : ¬lexeme.Joins := fun hjoins =>
    hu (htext ▸ List.mem_append_left _ hjoins.mem_text)
  refine ⟨fun t => ?_, fun t => ?_, fun t => ?_, h.quoted⟩
  · rw [List.append_assoc, ← h.feed]
    exact specifiers_of_first (hfirst '\n' t rfl) (hwhole _)
  · rw [List.append_assoc, ← h.returned]
    exact specifiers_of_first (hfirst '\r' _ rfl) (hwhole _)
  · rw [← h.joined]
    exact (joined_of_first (hfirst '\n' t rfl) (hwhole _)).trans (or_iff_right hjoins)

theorem returned_text (c : Char) (u t : Text) :
    (plain (c :: (u ++ ['\r']))).text ++ '\n' :: t = c :: (u ++ '\r' :: '\n' :: t) := by
  simp [text]

theorem passes_of_breaks (hu : '\n' ∉ u) (h : ∀ t, first c (u ++ '\n' :: t) = plain (c :: u) ∧
    first c (u ++ '\r' :: '\n' :: t) = plain (c :: (u ++ ['\r']))) :
    Passes .code (c :: u) [] .code where
  feed t := (specifiers_of_first (h t).1 rfl).trans (passes_nil.feed t)
  returned t := (specifiers_of_first (h t).2 (returned_text c u t)).trans (passes_nil.feed t)
  joined t := by
    have hjoins : ¬(plain (c :: u)).Joins := fun hjoins => hu hjoins.2
    exact ((joined_of_first (h t).1 rfl).trans (or_iff_right hjoins)).trans (passes_nil.joined t)
  quoted := passes_nil.quoted

theorem passes_of_comment (hquote : ¬Quote c)
    (h : ∀ t, first c (u ++ '\n' :: t) = plain (c :: (u ++ '\n' :: blockComment t)) ∧
      first c (u ++ '\r' :: '\n' :: t) = plain (c :: (u ++ '\r' :: '\n' :: blockComment t))) :
    Passes .code (c :: u) [] .comment := by
  have hwhole : ∀ t, (plain (c :: (u ++ '\n' :: blockComment t))).text ++ Carry.comment.rest t =
      c :: (u ++ '\n' :: t) := fun t => by simp [text, blockComment_append_rest]
  have hreturned : ∀ t, (plain (c :: (u ++ '\r' :: '\n' :: blockComment t))).text ++
      Carry.comment.rest t = c :: (u ++ '\r' :: '\n' :: t) := fun t => by
    simp [text, blockComment_append_rest]
  refine ⟨fun t => ?_, fun t => ?_, fun t => ?_,
    Carry.quote_of_not_literal Carry.not_literal_comment⟩
  · exact specifiers_of_first (h t).1 (hwhole t)
  · exact specifiers_of_first (h t).2 (hreturned t)
  · rw [or_iff_right Carry.not_literal_comment]
    exact (joined_of_first (h t).1 (hwhole t)).trans (or_iff_right fun hjoins => hquote hjoins.1)

theorem passes_of_joins (hquote : Quote c)
    (h : ∀ t, first c (u ++ '\n' :: t) = plain (c :: (u ++ '\n' :: stringLiteral c t)) ∧
      first c (u ++ '\r' :: '\n' :: t) = plain (c :: (u ++ ['\r']))) :
    Passes .code (c :: u) [] (.literal c) := by
  have hwhole : ∀ t, (plain (c :: (u ++ '\n' :: stringLiteral c t))).text ++
      (Carry.literal c).rest t = c :: (u ++ '\n' :: t) := fun t => by
    simp [text, stringLiteral_append_rest]
  refine ⟨fun t => ?_, fun t => ?_, fun t => ?_, ?_⟩
  · exact specifiers_of_first (h t).1 (hwhole t)
  · exact (specifiers_of_first (h t).2 (returned_text c u t)).trans (passes_nil.feed t)
  · refine iff_of_true ?_ (.inl ⟨c, rfl⟩)
    exact (joined_of_first (h t).1 (hwhole t)).mpr (.inl ⟨hquote, by simp⟩)
  · rintro quote ⟨⟩
    exact hquote

end Begins

/-- A line of code, one lexeme after the other. -/
theorem exists_passes_code (hu : '\n' ∉ u) : ∃ found carry, Passes .code u found carry := by
  induction hlength : u.length using Nat.strong_induction_on generalizing u with
  | _ n ih =>
    subst hlength
    cases u with
    | nil => exact ⟨[], .code, passes_nil⟩
    | cons c u =>
      cases begins hu with
      | within lexeme tail htext hfirst =>
        have hlt : tail.length < (c :: u).length := by
          have hne : lexeme.text ≠ [] := hfirst '\n' [] rfl ▸ (first_isPrefix c _).2
          rw [← htext, List.length_append]
          exact Nat.lt_add_of_pos_left (List.length_pos_iff.mpr hne)
        have htail : '\n' ∉ tail := fun hmem => hu (htext ▸ List.mem_append_right _ hmem)
        obtain ⟨found, carry, h⟩ := ih _ hlt htail rfl
        exact ⟨_, carry, h.cons htext hfirst hu⟩
      | breaks h => exact ⟨[], .code, passes_of_breaks (mt (List.mem_cons_of_mem c) hu) h⟩
      | comment hquote h => exact ⟨[], .comment, passes_of_comment hquote h⟩
      | joins hquote h => exact ⟨[], .literal c, passes_of_joins hquote h⟩

/-- Every line, unless a literal is open before it. -/
theorem exists_passes {start : Carry} (hstart : ¬start.Literal) (hu : '\n' ∉ u) :
    ∃ found carry, Passes start u found carry := by
  cases start with
  | code => exact exists_passes_code hu
  | literal quote => exact absurd ⟨quote, rfl⟩ hstart
  | comment =>
    rcases blockComment_line u with ⟨body, tail, rfl, hclosed⟩ | hgoes
    · have hrest : ∀ e t, isLineEnd e = true →
          Carry.comment.rest (body ++ tail ++ e :: t) = tail ++ e :: t := fun e t he => by
        rw [Carry.rest, hclosed e t he, List.append_assoc, List.drop_left]
      obtain ⟨found, carry, h⟩ :=
        exists_passes_code fun hmem => hu (List.mem_append_right body hmem)
      refine ⟨found, carry, fun t => ?_, fun t => ?_, fun t => ?_, h.quoted⟩
      · rw [hrest '\n' t rfl, ← h.feed, Carry.rest]
      · rw [hrest '\r' _ rfl, ← h.returned, Carry.rest]
      · rw [hrest '\n' t rfl, ← h.joined, Carry.rest]
    · have hrest : ∀ e t, isLineEnd e = true →
          Carry.comment.rest (u ++ e :: t) = Carry.comment.rest t := fun e t he => by
        have hwhole := blockComment_append_rest (u ++ e :: t)
        have hthere : u ++ e :: blockComment t ++ Carry.comment.rest t = u ++ e :: t := by
          simp [blockComment_append_rest]
        rw [hgoes e t he] at hwhole
        exact List.append_cancel_left (hwhole.trans hthere.symm)
      refine ⟨[], .comment, fun t => ?_, fun t => ?_, fun t => ?_,
        Carry.quote_of_not_literal Carry.not_literal_comment⟩
      · rw [hrest '\n' t rfl, List.nil_append]
      · rw [hrest '\r' _ rfl]
        rfl
      · rw [hrest '\n' t rfl, or_iff_right Carry.not_literal_comment]

/-! ## All lines -/

theorem Passes.withReturns {start carry : Carry} {found : List Text}
    (h : Passes start u found carry) (hu : '\n' ∉ u) (t : Text) :
    specifiers (start.rest (Text.withReturns (u ++ '\n' :: t))) =
      found ++ specifiers (carry.returned.rest (Text.withReturns t)) := by
  rw [Text.withReturns_line hu, h.returned]

/-- As long as no literal goes on behind a line feed, the lines are read alike. -/
theorem specifiers_withReturns {start : Carry} (hstart : ¬start.Literal) {a b e : Text}
    (h : ¬Joined (start.rest (a ++ b))) (he : '\n' ∉ e) :
    specifiers (start.rest (Text.withReturns (a ++ e))) = specifiers (start.rest (a ++ e)) := by
  induction hlength : a.length using Nat.strong_induction_on generalizing a start with
  | _ n ih =>
    subst hlength
    by_cases hfeed : '\n' ∈ a
    · obtain ⟨u, rest, rfl, hu⟩ := List.eq_append_cons_of_mem hfeed
      obtain ⟨found, carry, hpasses⟩ := exists_passes hstart hu
      rw [List.append_assoc, List.cons_append, hpasses.joined, not_or] at h
      obtain ⟨hcarry, h⟩ := h
      have hlt : rest.length < (u ++ '\n' :: rest).length := by
        rw [List.length_append, List.length_cons]
        omega
      rw [List.append_assoc, List.cons_append, hpasses.withReturns hu, hpasses.feed,
        Carry.returned_eq hcarry, ih _ hlt hcarry h rfl]
    · rw [Text.withReturns_of_not_mem (by simp [hfeed, he])]

/-- A text that tells whether a literal in this quote is open before it. -/
def telling (quote : Char) : Text :=
  quote :: ("@import " ++ [quote, 'x', quote])

theorem specifiers_telling {quote : Char} (h : Quote quote) :
    specifiers (telling quote) = [] ∧
      specifiers ((Carry.literal quote).rest (telling quote)) = ["x"] ∧
      '\n' ∉ telling quote ∧ '\r' ∉ telling quote := by
  rcases h with rfl | rfl <;> decide +kernel

/-- Where a literal goes on behind a line feed, what stands below can be read in another way. -/
theorem exists_specifiers_ne {start : Carry} (hstart : ¬start.Literal) (h : Joined (start.rest s)) :
    ∃ a e, a <+: s ∧ '\n' ∉ e ∧ '\r' ∉ e ∧
      specifiers (start.rest (Text.withReturns (a ++ e))) ≠ specifiers (start.rest (a ++ e)) := by
  induction hlength : s.length using Nat.strong_induction_on generalizing s start with
  | _ n ih =>
    subst hlength
    have hfeed : '\n' ∈ s := (start.rest_suffix s).subset (mem_of_joined h)
    obtain ⟨u, rest, rfl, hu⟩ := List.eq_append_cons_of_mem hfeed
    obtain ⟨found, carry, hpasses⟩ := exists_passes hstart hu
    by_cases hcarry : carry.Literal
    · obtain ⟨quote, rfl⟩ := hcarry
      obtain ⟨hcode, hliteral, hline, hreturn⟩ := specifiers_telling (hpasses.quoted quote rfl)
      refine ⟨u ++ ['\n'], telling quote, ⟨rest, by simp⟩, hline, hreturn, ?_⟩
      rw [List.append_assoc, List.singleton_append, hpasses.withReturns hu, hpasses.feed,
        Text.withReturns_of_not_mem hline, hliteral]
      exact fun heq => absurd (List.append_cancel_left heq) (by
        rw [Carry.returned, Carry.rest, hcode]
        decide)
    · have hlt : rest.length < (u ++ '\n' :: rest).length := by
        rw [List.length_append, List.length_cons]
        omega
      obtain ⟨a, e, ⟨more, rfl⟩, hline, hreturn, hne⟩ :=
        ih _ hlt hcarry (((hpasses.joined rest).mp h).resolve_left hcarry) rfl
      refine ⟨u ++ '\n' :: a, e, ⟨more, by simp⟩, hline, hreturn, ?_⟩
      rw [List.append_assoc, List.cons_append, hpasses.withReturns hu, hpasses.feed,
        Carry.returned_eq hcarry]
      exact fun heq => hne (List.append_cancel_left heq)

/-- A source has the same imports with a carriage return before each line feed, if none of its
literals goes on behind a line feed.  These are the sources for which it stays so whatever the text
from some place on is, short of further line feeds. -/
theorem line_ends_kept (s : Text) :
    (¬Joined s → specifiers (Text.withReturns s) = specifiers s) ∧
    (¬Joined s ↔ ∀ a e, a <+: s → '\n' ∉ e → '\r' ∉ e →
      specifiers (Text.withReturns (a ++ e)) = specifiers (a ++ e)) := by
  have hkept : ¬Joined s → ∀ a e, a <+: s → '\n' ∉ e →
      specifiers (Text.withReturns (a ++ e)) = specifiers (a ++ e) := by
    rintro h a e ⟨b, rfl⟩ he
    exact specifiers_withReturns Carry.not_literal_code h he
  refine ⟨fun h => ?_, fun h a e ha he _ => hkept h a e ha he, fun h hjoined => ?_⟩
  · have hwhole := hkept h s [] List.prefix_rfl List.not_mem_nil
    rwa [List.append_nil] at hwhole
  · obtain ⟨a, e, ha, hline, hreturn, hne⟩ := exists_specifiers_ne Carry.not_literal_code hjoined
    exact hne (h a e ha hline hreturn)

/-- Line feeds in a comment, behind a directive, and behind a literal that they break off. -/
def partedLines : Text :=
  "/*\n*/ @import \"a\";\n'b\\\\\n@import 'c';"

theorem line_ends_kept_parted : ¬Joined partedLines ∧
    specifiers (Text.withReturns partedLines) = specifiers partedLines := by
  have hparted : ¬Joined partedLines := by decide +kernel
  exact ⟨hparted, (line_ends_kept partedLines).1 hparted⟩

/-- A line feed in a literal, with what looks like a directive behind it. -/
def joinedLines : Text :=
  "\"a\\\n@import 'x'\""

/-- With a carriage return before the line feed, what looks like a directive is one. -/
theorem line_ends_tell : '\r' ∉ joinedLines ∧ Joined joinedLines ∧ specifiers joinedLines = [] ∧
    specifiers (Text.withReturns joinedLines) = ["x"] := by
  decide +kernel

end Directive

end StyleBatch
