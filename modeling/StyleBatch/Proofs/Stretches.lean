import StyleBatch.Proofs.Text
import StyleBatch.Proofs.Weave

/-!
# Stylesheets written stretch by stretch

A scan goes over a source character by character and has to be in step with whoever wrote it:
what is a comment, a literal or a directive is decided by where the last one ended.  A source that
is put together of closed stretches, in any order, is cut where they meet, so all its directives
are found and nothing else is.

* `Stretch.listAfter_text`: after a stretch the lexer goes on as at the start of a source.
* `Directive.scan_eq_directives`: leaving out sources without the keyword loses nothing.
* `Directive.scan_stretches`: the directives of a source that is written stretch by stretch.
-/

namespace StyleBatch

/-- A character of a string literal, or one with a backslash before it. -/
inductive Mark where
  | bare (c : Char)
  | escaped (c : Char)
deriving DecidableEq

namespace Mark

def text : Mark → Text
  | bare c => [c]
  | escaped c => ['\\', c]

/-- A mark that neither ends a literal in this quote nor breaks it off. -/
def Inside (quote : Char) : Mark → Prop
  | bare c => c ≠ '\\' ∧ c ≠ '\n' ∧ c ≠ quote
  | escaped _ => True

end Mark

/-- A closed piece of a stylesheet, as an author writes it. -/
inductive Stretch where
  | blockComment (body : Text)
  | lineComment (body : Text)
  | literal (quote : Char) (body : List Mark)
  | atWord (word : Text)
  | other (t : Text)
  | directive (filler : Text) (quote : Char) (specifier : Text)
deriving DecidableEq

namespace Stretch

/-- The word that makes an at-word a directive. -/
def importWord : Text := ['i', 'm', 'p', 'o', 'r', 't']

def text : Stretch → Text
  | blockComment body => '/' :: '*' :: (body ++ ['*', '/'])
  | lineComment body => '/' :: '/' :: (body ++ ['\n'])
  | literal quote body => quote :: (body.flatMap Mark.text ++ [quote])
  | atWord word => '@' :: (word ++ [' '])
  | other t => t
  | directive filler quote specifier =>
    '@' :: (importWord ++ (filler ++ quote :: (specifier ++ [quote])))

/-- A character of which words are made. -/
def WordChar (c : Char) : Prop :=
  c.isAlphanum = true ∨ c = '-' ∨ c = '_'

def Quote (c : Char) : Prop :=
  c = '"' ∨ c = '\''

/-- A text that may stand between the keyword and the quote. -/
def Filler (filler : Text) : Prop :=
  filler ≠ [] ∧ (∀ c ∈ filler.head?, ¬WordChar c) ∧
    ∀ c ∈ filler, c ≠ ';' ∧ c ≠ '\r' ∧ c ≠ '\n' ∧ ¬Quote c

/-- A specifier that may stand between two of these quotes. -/
def Quoted (quote : Char) (specifier : Text) : Prop :=
  specifier ≠ [] ∧ ∀ c ∈ specifier, c ≠ '\r' ∧ c ≠ '\n' ∧ c ≠ quote

/-- Nothing in a stretch closes it early or opens another one. -/
def Closed : Stretch → Prop
  | blockComment body => ¬['*', '/'] <:+: body
  | lineComment body => '\n' ∉ body
  | literal quote body => Quote quote ∧ ∀ mark ∈ body, mark.Inside quote
  | atWord word => (∀ c ∈ word, WordChar c) ∧ word ≠ importWord
  | other t => ∀ c ∈ t, c ≠ '/' ∧ c ≠ '@' ∧ ¬Quote c
  | directive filler quote specifier => Quote quote ∧ Filler filler ∧ Quoted quote specifier

section Decidable

/-- Only the characters of a text are tried, and not all there are. -/
instance (p : Char → Prop) [DecidablePred p] (t : Text) : Decidable (∀ c ∈ t, p c) :=
  List.decidableBAll p t

instance (p : Char → Prop) [DecidablePred p] (c? : Option Char) : Decidable (∀ c ∈ c?, p c) :=
  Option.decidableForallMem c?

instance (quote : Char) : DecidablePred (Mark.Inside quote)
  | .bare _ => inferInstanceAs (Decidable (_ ∧ _))
  | .escaped _ => inferInstanceAs (Decidable True)

instance : DecidablePred WordChar := fun _ => inferInstanceAs (Decidable (_ ∨ _))

instance : DecidablePred Quote := fun _ => inferInstanceAs (Decidable (_ ∨ _))

instance : DecidablePred Filler := fun _ => inferInstanceAs (Decidable (_ ∧ _))

instance (quote : Char) : DecidablePred (Quoted quote) :=
  fun _ => inferInstanceAs (Decidable (_ ∧ _))

instance : DecidablePred Closed
  | blockComment _ => inferInstanceAs (Decidable ¬_)
  | lineComment _ => inferInstanceAs (Decidable (_ ∉ _))
  | literal _ _ => inferInstanceAs (Decidable (_ ∧ _))
  | atWord _ => inferInstanceAs (Decidable (_ ∧ _))
  | other t => inferInstanceAs (Decidable (∀ c ∈ t, _))
  | directive _ _ _ => inferInstanceAs (Decidable (_ ∧ _))

end Decidable

/-- The directive that a stretch is, if it begins at this byte. -/
def directive? (offset : Nat) : Stretch → Option Directive
  | s@(directive _ _ specifier) => some ⟨specifier, offset, offset + Text.byteSize s.text⟩
  | _ => none

/-- The directives among stretches that begin at this byte. -/
def directives (offset : Nat) : List Stretch → List Directive
  | [] => []
  | s :: rest => (s.directive? offset).toList ++ directives (offset + Text.byteSize s.text) rest

/-- What the lexer makes of a stretch. -/
def lexemes : Stretch → List Lexeme
  | lineComment body => [.plain ('/' :: '/' :: body), .plain ['\n']]
  | atWord word => .plain ['@'] :: (word ++ [' ']).map fun c => .plain [c]
  | other t => t.map fun c => .plain [c]
  | directive filler quote specifier => [.directive filler quote specifier]
  | s => [.plain s.text]

end Stretch

/-! ## One lexeme after the other -/

namespace Lexeme

open Stretch (Filler Quote Quoted WordChar importWord)

theorem listAfter_eq_drop (skip : Nat) (t : Text) :
    listAfter skip t = listAfter 0 (t.drop skip) := by
  induction t generalizing skip with
  | nil => cases skip <;> rfl
  | cons c rest ih =>
    cases skip with
    | zero => rfl
    | succ skip => rw [listAfter, ih, List.drop_succ_cons]

/-- Behind its first lexeme a text is cut like any other. -/
theorem listAfter_cons {c : Char} {rest : Text} {lexeme : Lexeme} (tail : Text)
    (hfirst : first c rest = lexeme) (h : lexeme.text ++ tail = c :: rest) :
    listAfter 0 (c :: rest) = lexeme :: listAfter 0 tail := by
  have hne := (first_isPrefix c rest).2
  rw [hfirst] at hne
  have htail : rest.drop (lexeme.text.length - 1) = tail := by
    have hdrop := congrArg (List.drop lexeme.text.length) h
    rw [List.drop_left] at hdrop
    obtain ⟨n, hn⟩ : ∃ n, lexeme.text.length = n + 1 :=
      Nat.exists_eq_add_one.mpr (List.length_pos_iff.mpr hne)
    rw [hdrop, hn, List.drop_succ_cons, Nat.add_sub_cancel]
  rw [listAfter, hfirst, listAfter_eq_drop, htail]

theorem keyword_eq : keyword = '@' :: importWord := rfl

theorem isQuote_iff {c : Char} : isQuote c = true ↔ Quote c := by
  simp [isQuote, Quote]

theorem isWordChar_iff {c : Char} : isWordChar c = true ↔ WordChar c := by
  simp [isWordChar, WordChar, or_assoc]

theorem first_blockComment (rest : Text) :
    first '/' ('*' :: rest) = plain ('/' :: '*' :: blockComment rest) := rfl

theorem first_lineComment (rest : Text) :
    first '/' ('/' :: rest) = plain ('/' :: '/' :: lineComment rest) := rfl

theorem first_at (rest : Text) : first '@' rest = atWord rest := rfl

theorem first_quote {c : Char} (h : Quote c) (rest : Text) :
    first c rest = plain (c :: stringLiteral c rest) := by
  rcases h with rfl | rfl <;> rfl

theorem plain_of_wordChar {c : Char} (h : WordChar c) : c ≠ '/' ∧ c ≠ '@' ∧ ¬Quote c := by
  refine ⟨?_, ?_, ?_⟩
  · rintro rfl
    exact absurd h (by decide)
  · rintro rfl
    exact absurd h (by decide)
  · rintro (rfl | rfl) <;> exact absurd h (by decide)

theorem first_of_plain {c : Char} (h : c ≠ '/' ∧ c ≠ '@' ∧ ¬Quote c) (rest : Text) :
    first c rest = plain [c] := by
  obtain ⟨hslash, hat, hquote⟩ := h
  unfold first
  split
  · exact absurd rfl hslash
  · exact absurd rfl hslash
  · exact absurd rfl hat
  · rw [if_neg (isQuote_iff.not.mpr hquote)]

/-- Characters that open nothing are lexemes of their own. -/
theorem listAfter_of_plain {t : Text} (h : ∀ c ∈ t, c ≠ '/' ∧ c ≠ '@' ∧ ¬Quote c) (tail : Text) :
    listAfter 0 (t ++ tail) = t.map (fun c => plain [c]) ++ listAfter 0 tail := by
  induction t with
  | nil => rfl
  | cons c t ih =>
    have hfirst := first_of_plain (h c List.mem_cons_self) (t ++ tail)
    have hrest := ih fun c' hc' => h c' (List.mem_cons_of_mem _ hc')
    rw [List.cons_append, listAfter_cons (t ++ tail) hfirst rfl, hrest]
    rfl

theorem blockComment_append {body : Text} (h : ¬['*', '/'] <:+: body) (tail : Text) :
    blockComment (body ++ '*' :: '/' :: tail) = body ++ ['*', '/'] := by
  induction body with
  | nil => rfl
  | cons c body ih =>
    have hrest : ¬['*', '/'] <:+: body :=
      fun hmark => h (hmark.trans (List.suffix_cons c body).isInfix)
    rw [List.cons_append, blockComment, ih hrest, List.cons_append]
    -- A star at the end of the body is not the one before the slash.
    rintro rest rfl hslash
    cases body with
    | nil => cases hslash
    | cons d body =>
      cases hslash
      exact h (List.prefix_append ['*', '/'] body).isInfix

theorem stringLiteral_append {quote : Char} (hquote : Quote quote) {body : List Mark}
    (h : ∀ mark ∈ body, mark.Inside quote) (tail : Text) :
    stringLiteral quote (body.flatMap Mark.text ++ quote :: tail) =
      body.flatMap Mark.text ++ [quote] := by
  induction body with
  | nil =>
    rcases hquote with rfl | rfl <;> simp [stringLiteral]
  | cons mark body ih =>
    have hbody := ih fun mark' hmem => h mark' (List.mem_cons_of_mem _ hmem)
    cases mark with
    | escaped c => simp [Mark.text, stringLiteral, hbody]
    | bare c =>
      obtain ⟨hback, hline, hne⟩ := h _ List.mem_cons_self
      simp [Mark.text, stringLiteral, hbody, hback, hline, hne]

/-- A word after an `@` that is not the keyword. -/
theorem atWord_append {word : Text} (hword : ∀ c ∈ word, WordChar c)
    (hne : word ≠ importWord) (tail : Text) : atWord (word ++ ' ' :: tail) = plain ['@'] := by
  rw [atWord]
  split
  · rename_i c more hmore
    have htext : word ++ ' ' :: tail = importWord ++ c :: more :=
      (List.cons.inj (Text.eq_of_after? hmore)).2
    have hc : WordChar c := by
      rcases List.append_eq_append_iff.mp htext with ⟨left, hleft, hright⟩ | ⟨left, hleft, hright⟩
      · cases left with
        | nil => exact absurd (by simpa using hleft.symm) hne
        | cons d left =>
          cases hright
          exact absurd (hleft ▸ List.mem_append_right word List.mem_cons_self) (by decide)
      · cases left with
        | nil => exact absurd (by simpa using hleft) hne
        | cons d left =>
          cases hright
          exact hword c (hleft ▸ List.mem_append_right _ List.mem_cons_self)
    rw [if_pos (isWordChar_iff.mpr hc)]
  · rfl

theorem afterKeyword?_append {filler specifier : Text} {quote : Char} (hquote : Quote quote)
    (hfiller : Filler filler) (hspecifier : Quoted quote specifier) (tail : Text) :
    afterKeyword? (filler ++ quote :: (specifier ++ quote :: tail)) =
      some (directive filler quote specifier) := by
  have hquote' : isFiller quote = false := by
    simp [isFiller, isQuote_iff.mpr hquote]
  have hfiller' : ∀ c ∈ filler, isFiller c = true := by
    intro c hc
    obtain ⟨hsemicolon, hreturn, hline, hnot⟩ := hfiller.2.2 c hc
    simp [isFiller, isLineEnd, hsemicolon, hreturn, hline,
      Bool.eq_false_iff.mpr (isQuote_iff.not.mpr hnot)]
  have hinside : ∀ c ∈ specifier, (!(isLineEnd c || c == quote)) = true := by
    intro c hc
    obtain ⟨hreturn, hline, hne⟩ := hspecifier.2 c hc
    simp [isLineEnd, hreturn, hline, hne]
  have hbefore : (filler ++ quote :: (specifier ++ quote :: tail)).takeWhile isFiller = filler := by
    simp [List.takeWhile_append_of_pos hfiller', hquote']
  have hbehind : (filler ++ quote :: (specifier ++ quote :: tail)).dropWhile isFiller =
      quote :: (specifier ++ quote :: tail) := by
    simp [List.dropWhile_append_of_pos hfiller', hquote']
  have hwithin : (specifier ++ quote :: tail).takeWhile (fun c => !(isLineEnd c || c == quote)) =
      specifier := by
    rw [List.takeWhile_append_of_pos hinside]
    simp
  have hrest : (specifier ++ quote :: tail).dropWhile (fun c => !(isLineEnd c || c == quote)) =
      quote :: tail := by
    rw [List.dropWhile_append_of_pos hinside]
    simp
  rw [afterKeyword?]
  simp only [hbefore, hbehind, hwithin, hrest]
  simp [isQuote_iff.mpr hquote, hfiller.1, hspecifier.1]

theorem atWord_directive {filler specifier : Text} {quote : Char} (hquote : Quote quote)
    (hfiller : Filler filler) (hspecifier : Quoted quote specifier) (tail : Text) :
    atWord (importWord ++ (filler ++ quote :: (specifier ++ quote :: tail))) =
      directive filler quote specifier := by
  have hafter : Text.after? keyword
      ('@' :: (importWord ++ (filler ++ quote :: (specifier ++ quote :: tail)))) =
      some (filler ++ quote :: (specifier ++ quote :: tail)) := rfl
  have hkeyword := afterKeyword?_append hquote hfiller hspecifier tail
  rw [atWord, hafter]
  cases filler with
  | nil => exact absurd rfl hfiller.1
  | cons c filler =>
    rw [List.cons_append] at hkeyword ⊢
    dsimp only
    rw [if_neg (isWordChar_iff.not.mpr (hfiller.2.1 c rfl)), hkeyword, Option.getD_some]

end Lexeme

/-! ## One stretch after the other -/

namespace Stretch

open Lexeme

theorem text_lexeme (filler : Text) (quote : Char) (specifier : Text) :
    (Lexeme.directive filler quote specifier).text = (directive filler quote specifier).text := by
  rw [Lexeme.text, keyword_eq, text]
  simp

theorem directives_plains (t : Text) (offset : Nat) (ls : List Lexeme) :
    Lexeme.directives offset (t.map (fun c => .plain [c]) ++ ls) =
      Lexeme.directives (offset + Text.byteSize t) ls := by
  induction t generalizing offset with
  | nil => rfl
  | cons c t ih =>
    rw [List.map_cons, List.cons_append, Lexeme.directives, ih, Nat.add_assoc,
      ← Text.byteSize_append, List.singleton_append]

/-- After a closed stretch the lexer goes on as at the start of a source. -/
theorem listAfter_text {s : Stretch} (h : s.Closed) (tail : Text) :
    listAfter 0 (s.text ++ tail) = s.lexemes ++ listAfter 0 tail := by
  cases s with
  | blockComment body =>
    simp only [Closed] at h
    have hfirst := first_blockComment (body ++ '*' :: '/' :: tail)
    rw [blockComment_append h] at hfirst
    simp only [text, lexemes, List.cons_append, List.append_assoc, List.nil_append]
    exact listAfter_cons tail hfirst (by simp [Lexeme.text])
  | lineComment body =>
    simp only [Closed] at h
    have hfirst := first_lineComment (body ++ '\n' :: tail)
    have hline : ∀ c ∈ body, (c != '\n') = true :=
      fun c hc => bne_iff_ne.mpr fun heq => h (heq ▸ hc)
    have hbody : Lexeme.lineComment (body ++ '\n' :: tail) = body := by
      simp [Lexeme.lineComment, List.takeWhile_append_of_pos hline]
    rw [hbody] at hfirst
    -- The line feed is not part of the lexeme: it is one that opens nothing.
    have hfeed : listAfter 0 ('\n' :: tail) = .plain ['\n'] :: listAfter 0 tail :=
      listAfter_cons tail (first_of_plain (by decide) tail) rfl
    simp only [text, lexemes, List.cons_append, List.append_assoc, List.nil_append]
    rw [listAfter_cons ('\n' :: tail) hfirst (by simp [Lexeme.text]), hfeed]
  | literal quote body =>
    simp only [Closed] at h
    have hfirst := first_quote h.1 (body.flatMap Mark.text ++ quote :: tail)
    rw [stringLiteral_append h.1 h.2] at hfirst
    simp only [text, lexemes, List.cons_append, List.append_assoc, List.nil_append]
    exact listAfter_cons tail hfirst (by simp [Lexeme.text])
  | atWord word =>
    simp only [Closed] at h
    have hfirst := first_at (word ++ ' ' :: tail)
    rw [atWord_append h.1 h.2] at hfirst
    have hplain : ∀ c ∈ word ++ [' '], c ≠ '/' ∧ c ≠ '@' ∧ ¬Quote c := by
      intro c hc
      rcases List.mem_append.mp hc with hc | hc
      · exact plain_of_wordChar (h.1 c hc)
      · rw [List.mem_singleton.mp hc]
        decide
    have hword := listAfter_of_plain hplain tail
    simp only [text, lexemes, List.cons_append, List.append_assoc, List.nil_append] at hword ⊢
    rw [listAfter_cons (word ++ ' ' :: tail) hfirst rfl, hword]
  | other t => exact listAfter_of_plain h tail
  | directive filler quote specifier =>
    simp only [Closed] at h
    obtain ⟨hquote, hfiller, hspecifier⟩ := h
    have hfirst := first_at (importWord ++ (filler ++ quote :: (specifier ++ quote :: tail)))
    rw [atWord_directive hquote hfiller hspecifier] at hfirst
    have htext : (directive filler quote specifier).text ++ tail =
        '@' :: (importWord ++ (filler ++ quote :: (specifier ++ quote :: tail))) := by
      simp [text]
    rw [htext, listAfter_cons tail hfirst (by rw [text_lexeme, htext])]
    rfl

/-- The lexemes of a stretch have its directive, at the same bytes. -/
theorem directives_lexemes (s : Stretch) (offset : Nat) (ls : List Lexeme) :
    Lexeme.directives offset (s.lexemes ++ ls) =
      (s.directive? offset).toList ++ Lexeme.directives (offset + Text.byteSize s.text) ls := by
  cases s with
  | blockComment body => rfl
  | literal quote body => rfl
  | lineComment body =>
    have hsize : (lineComment body).text = ('/' :: '/' :: body) ++ ['\n'] := rfl
    rw [hsize, Text.byteSize_append, ← Nat.add_assoc]
    rfl
  | atWord word =>
    have hsize : (atWord word).text = ['@'] ++ (word ++ [' ']) := rfl
    rw [hsize, Text.byteSize_append, ← Nat.add_assoc]
    exact directives_plains _ _ _
  | other t => exact directives_plains _ _ _
  | directive filler quote specifier =>
    rw [lexemes, List.singleton_append, Lexeme.directives, text_lexeme]
    rfl

theorem lexemes_flatMap {ss : List Stretch} (h : ∀ s ∈ ss, s.Closed) :
    Directive.lexemes (ss.flatMap text) = ss.flatMap lexemes := by
  induction ss with
  | nil => rfl
  | cons s ss ih =>
    have hrest := ih fun s' hs' => h s' (List.mem_cons_of_mem _ hs')
    rw [Directive.lexemes] at hrest ⊢
    rw [List.flatMap_cons, listAfter_text (h s List.mem_cons_self), hrest, List.flatMap_cons]

theorem directives_flatMap (ss : List Stretch) (offset : Nat) :
    Lexeme.directives offset (ss.flatMap lexemes) = directives offset ss := by
  induction ss generalizing offset with
  | nil => rfl
  | cons s ss ih => rw [List.flatMap_cons, directives_lexemes, ih, directives]

end Stretch

namespace Text

theorem isSome_cut?_of_infix {mark t : Text} (h : mark <:+: t) : (cut? mark t).isSome := by
  induction t with
  | nil =>
    rw [List.infix_nil.mp h]
    rfl
  | cons c rest ih =>
    rw [cut?]
    split
    · rfl
    · rename_i hnot
      rcases List.infix_cons_iff.mp h with hprefix | hinfix
      · exact absurd (List.isPrefixOf_iff_prefix.mpr hprefix) hnot
      · rw [Option.isSome_map]
        exact ih hinfix

end Text

namespace Directive

/-- A source without the keyword has no directive lexeme, so nothing is lost by not cutting it. -/
theorem scan_eq_directives (source : Text) :
    scan source = Lexeme.directives 0 (lexemes source) := by
  rw [scan]
  split
  · rfl
  · rename_i hnot
    refine (List.eq_nil_iff_forall_not_mem.mpr fun d hd => hnot ?_).symm
    obtain ⟨filler, quote, hmem⟩ := Lexeme.exists_of_mem_directives hd
    refine Text.isSome_cut?_of_infix ?_
    have hsource : (lexemes source).flatMap Lexeme.text = source :=
      Lexeme.flatMap_text_listAfter 0 source
    rw [← hsource]
    obtain ⟨us, vs, hlexemes⟩ := List.append_of_mem hmem
    rw [hlexemes, List.flatMap_append, List.flatMap_cons, Lexeme.text]
    refine ⟨us.flatMap Lexeme.text,
      filler ++ [quote] ++ d.specifier ++ [quote] ++ vs.flatMap Lexeme.text, ?_⟩
    simp

/-- What a scan finds.  In a source put together of closed stretches it finds the directives among
them, in their order, each with its specifier and at its own bytes, and nothing else. -/
theorem scan_stretches {ss : List Stretch} (h : ∀ s ∈ ss, s.Closed) :
    scan (ss.flatMap Stretch.text) = Stretch.directives 0 ss := by
  rw [scan_eq_directives, Stretch.lexemes_flatMap h, Stretch.directives_flatMap]

section Mixed

/-- A stylesheet with what looks like directives in comments, a literal and an at-word, and one
directive. -/
def mixed : List Stretch :=
  [.blockComment " @import \"x\"; ü*", .lineComment " '@import 'é'",
    .literal '"' [.bare '@', .escaped '"', .bare '日', .bare '\''], .atWord "importer",
    .other "a: b\n", .directive " url(" '\'' "ä\"b", .other ");"]

/-- Only the directive is found. -/
theorem scan_mixed : (∀ s ∈ mixed, s.Closed) ∧
    scan (mixed.flatMap Stretch.text) = [⟨"ä\"b", 62, 80⟩] :=
  ⟨by decide +kernel, (scan_stretches (by decide +kernel)).trans (by decide +kernel)⟩

end Mixed

end Directive

end StyleBatch
