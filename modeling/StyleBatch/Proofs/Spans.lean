import Mathlib.Data.List.TakeWhile
import StyleBatch.Proofs.Bytewise

/-!
# Spans of directives

The spans that a scan finds lie in the source one behind the other, on character boundaries, and
each covers a directive as it is written.  So any of the directives can be replaced: what stands
outside their spans stays, and with their own texts put back the source comes out.

* `Lexeme.pairwise_directives`, `Directive.covers_of_mem_scan`: where the spans lie and what they
  cover.
* `Lexeme.exists_of_sublist`: directives that are not chosen count as plain text.
* `Directive.scan_sound`: a scan of any source, and splicing any of its directives.
-/

namespace StyleBatch

/-- The span of the directive in the source: the keyword, a filler, and the specifier in quotes. -/
def Directive.Covers (d : Directive) (source : Text) : Prop :=
  ∃ before filler quote after,
    source = before ++ (Lexeme.directive filler quote d.specifier).text ++ after ∧
      d.start = Text.byteSize before ∧
      d.stop = d.start + Text.byteSize (Lexeme.directive filler quote d.specifier).text ∧
      (filler ≠ [] ∧ ∀ c ∈ filler, c ≠ ';' ∧ c ≠ '\r' ∧ c ≠ '\n' ∧ ¬Stretch.Quote c) ∧
      Stretch.Quote quote ∧ d.specifier ≠ []

/-- The text of the directive in the source. -/
def Directive.own (source : Text) (d : Directive) : Text :=
  (Text.slice? d.start d.stop source).getD []

theorem Directive.slice?_of_covers {source : Text} {d : Directive} (h : d.Covers source) :
    Text.slice? d.start d.stop source = some (d.own source) := by
  obtain ⟨before, filler, quote, after, rfl, hstart, hstop, -⟩ := h
  rw [own, hstop, hstart, List.append_assoc, Text.slice?_append]
  rfl

namespace Lexeme

/-- The spans of directives begin at the offset and lie one behind the other. -/
theorem pairwise_directives (offset : Nat) (ls : List Lexeme) :
    (∀ d ∈ directives offset ls, offset ≤ d.start) ∧
      (directives offset ls).Pairwise fun d e => d.stop ≤ e.start := by
  induction ls generalizing offset with
  | nil => exact ⟨nofun, .nil⟩
  | cons lexeme rest ih =>
    cases lexeme with
    | plain t =>
      obtain ⟨hstart, hpairwise⟩ := ih (offset + Text.byteSize t)
      exact ⟨fun d hd => Nat.le_of_add_right_le (hstart d hd), hpairwise⟩
    | directive filler quote specifier =>
      obtain ⟨hstart, hpairwise⟩ :=
        ih (offset + Text.byteSize (directive filler quote specifier).text)
      refine ⟨fun d hd => ?_, List.pairwise_cons.mpr ⟨hstart, hpairwise⟩⟩
      rcases List.mem_cons.mp hd with rfl | hd
      · exact Nat.le_refl _
      · exact Nat.le_of_add_right_le (hstart d hd)

/-- A directive stands where its lexeme does. -/
theorem exists_lexeme_of_mem {offset : Nat} {ls : List Lexeme} {d : Directive}
    (h : d ∈ directives offset ls) : ∃ front filler quote back,
      ls = front ++ directive filler quote d.specifier :: back ∧
        d.start = offset + Text.byteSize (front.flatMap text) ∧
          d.stop = d.start + Text.byteSize (directive filler quote d.specifier).text := by
  induction ls generalizing offset with
  | nil => cases h
  | cons lexeme rest ih =>
    cases lexeme with
    | plain t =>
      obtain ⟨front, filler, quote, back, rfl, hstart, hstop⟩ := ih h
      refine ⟨plain t :: front, filler, quote, back, rfl, ?_, hstop⟩
      rw [hstart, List.flatMap_cons, text, Text.byteSize_append, Nat.add_assoc]
    | directive filler quote specifier =>
      rcases List.mem_cons.mp h with rfl | h
      · exact ⟨[], filler, quote, rest, rfl, rfl, rfl⟩
      · obtain ⟨front, filler', quote', back, rfl, hstart, hstop⟩ := ih h
        refine ⟨directive filler quote specifier :: front, filler', quote', back, rfl, ?_, hstop⟩
        rw [hstart, List.flatMap_cons, Text.byteSize_append, Nat.add_assoc]

/-- What is read behind the keyword is written as a directive. -/
theorem closed_of_afterKeyword? {t filler specifier : Text} {quote : Char}
    (h : afterKeyword? t = some (directive filler quote specifier)) :
    (filler ≠ [] ∧ ∀ c ∈ filler, c ≠ ';' ∧ c ≠ '\r' ∧ c ≠ '\n' ∧ ¬Stretch.Quote c) ∧
      Stretch.Quote quote ∧ specifier ≠ [] := by
  rw [afterKeyword?] at h
  split at h
  · simp only [Option.ite_none_right_eq_some, Bool.and_eq_true, Bool.not_eq_true',
      Option.some.injEq, directive.injEq] at h
    obtain ⟨⟨⟨⟨hquote, hfiller⟩, hspecifier⟩, -⟩, rfl, rfl, rfl⟩ := h
    refine ⟨⟨by simpa using hfiller, fun c hc => ?_⟩, isQuote_iff.mp hquote,
      by simpa using hspecifier⟩
    obtain ⟨hend, hnot⟩ := Bytewise.isFiller_iff.mp (List.mem_takeWhile_imp hc)
    simp only [not_or] at hend
    exact ⟨hend.1, hend.2.2, hend.2.1, hnot⟩
  · cases h

theorem closed_of_first {c : Char} {rest filler specifier : Text} {quote : Char}
    (h : directive filler quote specifier = first c rest) :
    (filler ≠ [] ∧ ∀ c ∈ filler, c ≠ ';' ∧ c ≠ '\r' ∧ c ≠ '\n' ∧ ¬Stretch.Quote c) ∧
      Stretch.Quote quote ∧ specifier ≠ [] := by
  unfold first at h
  split at h
  · cases h
  · cases h
  · rw [atWord] at h
    split at h
    · rename_i c more _
      split at h
      · cases h
      · cases hafter : afterKeyword? (c :: more) with
        | none =>
          rw [hafter] at h
          cases h
        | some lexeme =>
          rw [hafter, Option.getD_some] at h
          subst h
          exact closed_of_afterKeyword? hafter
    · cases h
  · split at h <;> cases h

/-- A directive lexeme is written as one. -/
theorem closed_of_mem_listAfter {skip : Nat} {t filler specifier : Text} {quote : Char}
    (h : directive filler quote specifier ∈ listAfter skip t) :
    (filler ≠ [] ∧ ∀ c ∈ filler, c ≠ ';' ∧ c ≠ '\r' ∧ c ≠ '\n' ∧ ¬Stretch.Quote c) ∧
      Stretch.Quote quote ∧ specifier ≠ [] := by
  induction t generalizing skip with
  | nil => cases skip <;> cases h
  | cons c rest ih =>
    cases skip with
    | succ skip => exact ih h
    | zero =>
      rcases List.mem_cons.mp h with h | h
      · exact closed_of_first h
      · exact ih h

/-- Directives that are not chosen count as plain text. -/
theorem exists_of_sublist {offset : Nat} {ls : List Lexeme} {chosen : List Directive}
    (h : chosen.Sublist (directives offset ls)) :
    ∃ ls', directives offset ls' = chosen ∧ ls'.flatMap text = ls.flatMap text := by
  induction ls generalizing offset chosen with
  | nil =>
    cases h
    exact ⟨[], rfl, rfl⟩
  | cons lexeme rest ih =>
    cases lexeme with
    | plain t =>
      obtain ⟨ls', rfl, htext⟩ := ih h
      exact ⟨plain t :: ls', rfl, by rw [List.flatMap_cons, List.flatMap_cons, htext]⟩
    | directive filler quote specifier =>
      cases h with
      | cons _ h =>
        obtain ⟨ls', rfl, htext⟩ := ih h
        exact ⟨plain (directive filler quote specifier).text :: ls', rfl,
          by rw [List.flatMap_cons, List.flatMap_cons, htext, text]⟩
      | cons_cons _ h =>
        obtain ⟨ls', rfl, htext⟩ := ih h
        exact ⟨directive filler quote specifier :: ls', rfl,
          by rw [List.flatMap_cons, List.flatMap_cons, htext]⟩

/-- With the own texts of the directives in their places, the source comes out. -/
theorem weave_own (before : Text) {ls : List Lexeme} {replacement : Directive → Text}
    (h : ∀ d ∈ directives (Text.byteSize before) ls,
      Text.slice? d.start d.stop (before ++ ls.flatMap text) = some (replacement d)) :
    weave ls ((directives (Text.byteSize before) ls).map replacement) = ls.flatMap text := by
  induction ls generalizing before with
  | nil => rfl
  | cons lexeme rest ih =>
    have hrest := ih (before ++ lexeme.text)
    rw [Text.byteSize_append, List.append_assoc, ← List.flatMap_cons] at hrest
    cases lexeme with
    | plain t => exact congrArg (t ++ ·) (hrest h)
    | directive filler quote specifier =>
      rw [directives] at h ⊢
      obtain ⟨hfirst, h⟩ := List.forall_mem_cons.mp h
      rw [List.flatMap_cons, Text.slice?_append, Option.some_inj] at hfirst
      rw [List.map_cons, weave, hrest h, ← hfirst, List.flatMap_cons]

end Lexeme

namespace Directive

/-- Each span covers a directive. -/
theorem covers_of_mem_scan {source : Text} {d : Directive} (h : d ∈ scan source) :
    d.Covers source := by
  rw [scan_eq_directives] at h
  obtain ⟨front, filler, quote, back, hlexemes, hstart, hstop⟩ := Lexeme.exists_lexeme_of_mem h
  have hmem : Lexeme.directive filler quote d.specifier ∈ lexemes source := by
    simp [hlexemes]
  have hsource : (lexemes source).flatMap Lexeme.text = source :=
    Lexeme.flatMap_text_listAfter 0 source
  refine ⟨front.flatMap Lexeme.text, filler, quote, back.flatMap Lexeme.text, ?_, ?_, hstop,
    Lexeme.closed_of_mem_listAfter hmem⟩
  · rw [← hsource, hlexemes, List.flatMap_append, List.flatMap_cons, List.append_assoc]
  · rw [hstart, Nat.zero_add]

/-- Any directives of a source are replaced: the source is cut into lexemes of which just these are
directives, and only they are exchanged. -/
theorem replaceEach_of_sublist {source : Text} {chosen : List Directive}
    (h : chosen.Sublist (scan source)) :
    ∃ ls, ls.flatMap Lexeme.text = source ∧ Lexeme.directives 0 ls = chosen ∧
      ∀ replacement : Directive → Text,
        replaceEach source chosen replacement =
          some (Lexeme.weave ls (chosen.map replacement)) := by
  rw [scan_eq_directives] at h
  obtain ⟨ls, hchosen, htext⟩ := Lexeme.exists_of_sublist h
  have hsource : ls.flatMap Lexeme.text = source :=
    htext.trans (Lexeme.flatMap_text_listAfter 0 source)
  refine ⟨ls, hsource, hchosen, fun replacement => ?_⟩
  have hoffset : Lexeme.directives (0 + Text.byteSize []) ls = chosen := hchosen
  have hsplice := Lexeme.spliceFrom_directives ls 0 [] (chosen.map replacement)
    (by rw [hoffset, List.length_map])
  rw [hoffset, List.nil_append, List.nil_append, hsource, ← List.map_prod_left_eq_zip] at hsplice
  exact hsplice

/-- What any source comes to.  A scan byte by byte reads in range, gets to the end, and finds what
the scan finds that leaves out sources without the keyword.  The spans that are found lie in the
source one behind the other and cover directives.  Any of the directives, in their order, are
replaced by any texts, while what stands outside their spans stays; their own texts give the source
again. -/
theorem scan_sound (source : Text) :
    (∀ ds, Bytewise.Scans source 0 ds ↔ ds = scan source) ∧
      (scan source).Pairwise (fun d e => d.stop ≤ e.start) ∧
      (∀ d ∈ scan source, d.start < d.stop ∧ d.stop ≤ Text.byteSize source ∧ d.Covers source) ∧
      ∀ chosen, chosen.Sublist (scan source) →
        (∃ ls, ls.flatMap Lexeme.text = source ∧ Lexeme.directives 0 ls = chosen ∧
          ∀ replacement : Directive → Text, replaceEach source chosen replacement =
            some (Lexeme.weave ls (chosen.map replacement))) ∧
        replaceEach source chosen (own source) = some source := by
  refine ⟨Bytewise.scans_iff source, ?_, fun d hd => ?_, fun chosen hchosen => ?_⟩
  · rw [scan_eq]
    exact (Lexeme.pairwise_directives 0 _).2
  · have hcovers := covers_of_mem_scan hd
    obtain ⟨before, filler, quote, after, rfl, hstart, hstop, -⟩ := id hcovers
    have hpos : 0 < Text.byteSize (Lexeme.directive filler quote d.specifier).text :=
      Nat.pos_of_ne_zero fun hzero => by cases Text.byteSize_eq_zero.mp hzero
    refine ⟨by omega, ?_, hcovers⟩
    rw [Text.byteSize_append, Text.byteSize_append]
    omega
  · obtain ⟨ls, hsource, hls, hreplace⟩ := replaceEach_of_sublist hchosen
    refine ⟨⟨ls, hsource, hls, hreplace⟩, ?_⟩
    have hown : ∀ d ∈ chosen, Text.slice? d.start d.stop source = some (own source d) := fun d hd =>
      slice?_of_covers (covers_of_mem_scan (hchosen.subset hd))
    subst hls
    rw [hreplace, ← hsource]
    rw [← hsource] at hown
    exact congrArg some (Lexeme.weave_own [] hown)

section Chosen

def tripled : Text :=
  "é@import \"ä\"; @import 'b'; /* @import 'x' */ @import ü'ß'"

def firstAndLast : List Directive :=
  [⟨"ä", 2, 14⟩, ⟨"ß", 47, 61⟩]

/-- Two of three directives are replaced, or put back. -/
theorem scan_sound_chosen :
    firstAndLast.Sublist (scan tripled) ∧
      replaceEach tripled firstAndLast (own tripled) = some tripled :=
  have hchosen : firstAndLast.Sublist (scan tripled) := by decide +kernel
  ⟨hchosen, ((scan_sound tripled).2.2.2 firstAndLast hchosen).2⟩

example : replaceEach tripled firstAndLast specifier =
    some ("éä; @import 'b'; /* @import 'x' */ ß" : Text) := by decide +kernel

end Chosen

end Directive

end StyleBatch
