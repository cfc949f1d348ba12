import StyleBatch.Directive.Bytewise
import StyleBatch.Proofs.Stretches

/-!
# The scan byte by byte finds the directives

Everything a scan looks for is ASCII, and no byte of another character is, so it goes over other
characters without stopping in them.  Each loop over the bytes therefore ends where the lexer's
function for it does, and no position is out of range or in the middle of a character.

* `Stands`: what text stands at a position.
* `blockComment?_eq` and the like: where each loop ends, from the text that stands at its start.
* `step?_first`: at a lexeme the scan goes on behind it, with the directive that it is.
* `scans_iff`: so a scan comes to the end, and finds what the lexer finds.
-/

namespace StyleBatch

namespace Utf8

theorem encode_cons (c : Char) (t : Text) : encode (c :: t) = String.utf8EncodeChar c ++ encode t :=
  List.flatMap_cons

theorem encode_append (s t : Text) : encode (s ++ t) = encode s ++ encode t :=
  List.flatMap_append

theorem length_encode (t : Text) : (encode t).length = Text.byteSize t := by
  induction t with
  | nil => rfl
  | cons c t ih =>
    rw [encode_cons, List.length_append, ih, Text.byteSize_cons, String.length_utf8EncodeChar]

end Utf8

namespace Bytewise

/-- Characters with a single byte. -/
def Ascii (c : Char) : Prop :=
  c.toNat < 0x80

instance (c : Char) : Decidable (Ascii c) :=
  inferInstanceAs (Decidable (_ < _))

theorem encodeChar_of_ascii {c : Char} (h : Ascii c) : String.utf8EncodeChar c = [ascii c] := by
  have hle : c.val.toNat ≤ 127 := Nat.le_of_lt_succ h
  rw [String.utf8EncodeChar, if_pos hle]
  rfl

/-- No byte of another character is ASCII. -/
theorem high_of_mem {c : Char} (h : ¬Ascii c) {b : UInt8} (hb : b ∈ String.utf8EncodeChar c) :
    0x80 ≤ b.toNat := by
  have hnot : ¬c.val.toNat ≤ 127 := fun hle => h (Nat.lt_succ_of_le hle)
  rw [String.utf8EncodeChar, if_neg hnot] at hb
  split at hb
  · simp at hb
    rcases hb with rfl | rfl <;> simp <;> omega
  · split at hb
    · simp at hb
      rcases hb with rfl | rfl | rfl <;> simp <;> omega
    · simp at hb
      rcases hb with rfl | rfl | rfl | rfl <;> simp <;> omega

theorem byteSize_of_ascii {c : Char} (h : Ascii c) : c.utf8Size = 1 := by
  rw [← String.length_utf8EncodeChar, encodeChar_of_ascii h]
  rfl

theorem toNat_ascii {c : Char} (h : Ascii c) : (ascii c).toNat = c.toNat := by
  rw [ascii, UInt8.toNat_ofNat']
  exact Nat.mod_eq_of_lt (Nat.lt_trans h (by decide))

theorem ascii_inj {c d : Char} (h : Ascii c) (h' : Ascii d) : ascii c = ascii d ↔ c = d := by
  refine ⟨fun heq => ?_, congrArg ascii⟩
  have hnat := congrArg UInt8.toNat heq
  rw [toNat_ascii h, toNat_ascii h'] at hnat
  exact Char.toNat_inj.mp hnat

theorem ne_ascii_of_high {b : UInt8} {c : Char} (h : 0x80 ≤ b.toNat) (hc : Ascii c) :
    b ≠ ascii c := by
  rintro rfl
  rw [toNat_ascii hc] at h
  exact Nat.not_le_of_lt hc h

/-! ## Texts at positions -/

/-- The bytes of a text begin at a position and go to the end. -/
def Stands (bytes : Bytes) (pos : Nat) (rest : Text) : Prop :=
  ∃ front, bytes = front ++ Utf8.encode rest ∧ pos = front.length

section Positions

variable {bytes : Bytes} {pos : Nat} {c : Char} {rest : Text}

theorem stands_zero (source : Text) : Stands (Utf8.encode source) 0 source :=
  ⟨[], rfl, rfl⟩

theorem Stands.length (h : Stands bytes pos rest) : bytes.length = pos + Text.byteSize rest := by
  obtain ⟨front, rfl, rfl⟩ := h
  rw [List.length_append, Utf8.length_encode]

theorem Stands.getElem? (h : Stands bytes pos rest) (i : Nat) :
    bytes[pos + i]? = (Utf8.encode rest)[i]? := by
  obtain ⟨front, rfl, rfl⟩ := h
  rw [List.getElem?_append_right (Nat.le_add_right _ _), Nat.add_sub_cancel_left]

theorem Stands.append {s : Text} (h : Stands bytes pos (s ++ rest)) :
    Stands bytes (pos + Text.byteSize s) rest := by
  obtain ⟨front, rfl, rfl⟩ := h
  refine ⟨front ++ Utf8.encode s, ?_, ?_⟩
  · rw [Utf8.encode_append, List.append_assoc]
  · rw [List.length_append, Utf8.length_encode]

theorem Stands.cons (h : Stands bytes pos (c :: rest)) : Stands bytes (pos + c.utf8Size) rest :=
  Stands.append (s := [c]) h

theorem Stands.cons_ascii (h : Stands bytes pos (c :: rest)) (hc : Ascii c) :
    Stands bytes (pos + 1) rest := by
  rw [← byteSize_of_ascii hc]
  exact h.cons

theorem Stands.getElem?_ascii (h : Stands bytes pos (c :: rest)) (hc : Ascii c) :
    bytes[pos]? = some (ascii c) := by
  rw [← Nat.add_zero pos, h.getElem?, Utf8.encode_cons, encodeChar_of_ascii hc]
  rfl

/-- All bytes of a character that is not ASCII are high. -/
theorem Stands.getElem?_high (h : Stands bytes pos (c :: rest)) (hc : ¬Ascii c) {i : Nat}
    (hi : i < c.utf8Size) : ∃ b, bytes[pos + i]? = some b ∧ 0x80 ≤ b.toNat := by
  have hlt : i < (String.utf8EncodeChar c).length := by rwa [String.length_utf8EncodeChar]
  refine ⟨_, ?_, high_of_mem hc (List.getElem_mem hlt)⟩
  rw [h.getElem?, Utf8.encode_cons, List.getElem?_append_left hlt, List.getElem?_eq_getElem hlt]

/-- An ASCII byte is where its character is. -/
theorem Stands.getElem?_eq_ascii_iff (h : Stands bytes pos rest) (hc : Ascii c) :
    bytes[pos]? = some (ascii c) ↔ rest.head? = some c := by
  cases rest with
  | nil =>
    have hnone : bytes[pos]? = none := List.getElem?_eq_none (Nat.le_of_eq h.length)
    simp [hnone]
  | cons d rest =>
    rw [List.head?_cons, Option.some_inj]
    by_cases hd : Ascii d
    · rw [h.getElem?_ascii hd, Option.some_inj, ascii_inj hd hc]
    · obtain ⟨b, hb, hhigh⟩ := h.getElem?_high hd (Char.utf8Size_pos d)
      rw [Nat.add_zero] at hb
      rw [hb, Option.some_inj]
      exact ⟨fun heq => absurd heq (ne_ascii_of_high hhigh hc), fun heq => absurd (heq ▸ hc) hd⟩

/-- What passes over high bytes one by one passes over the rest of their character. -/
theorem Stands.skip {α : Type} (h : Stands bytes pos (c :: rest)) (hc : ¬Ascii c) (loop : Nat → α)
    (hloop : ∀ p b, bytes[p]? = some b → 0x80 ≤ b.toNat → loop p = loop (p + 1)) {i : Nat}
    (hi : i ≤ c.utf8Size) : loop (pos + i) = loop (pos + c.utf8Size) := by
  induction hleft : c.utf8Size - i generalizing i with
  | zero => rw [show i = c.utf8Size by omega]
  | succ left ih =>
    obtain ⟨b, hb, hhigh⟩ := h.getElem?_high hc (i := i) (by omega)
    rw [hloop _ b hb hhigh, Nat.add_assoc]
    exact ih (by omega) (by omega)

theorem Stands.skip_char {α : Type} (h : Stands bytes pos (c :: rest)) (hc : ¬Ascii c)
    (loop : Nat → α)
    (hloop : ∀ p b, bytes[p]? = some b → 0x80 ≤ b.toNat → loop p = loop (p + 1)) :
    loop pos = loop (pos + c.utf8Size) :=
  h.skip hc loop hloop (Nat.zero_le _)

end Positions

/-! ## The loops -/

section Loops

variable {bytes : Bytes} {pos : Nat} {b : UInt8} {rest : Text}

theorem lt_of_getElem? (h : bytes[pos]? = some b) : pos < bytes.length :=
  (List.getElem?_eq_some_iff.mp h).1

theorem lineComment?_end (h : bytes.length ≤ pos) : lineComment? bytes pos = some pos := by
  rw [lineComment?, if_neg (Nat.not_lt_of_le h)]

theorem lineComment?_step (h : bytes[pos]? = some b) : lineComment? bytes pos =
    if b = ascii '\n' then some pos else lineComment? bytes (pos + 1) := by
  rw [lineComment?, if_pos (lt_of_getElem? h), h]
  rfl

theorem lineComment?_eq (h : Stands bytes pos rest) :
    lineComment? bytes pos = some (pos + Text.byteSize (Lexeme.lineComment rest)) := by
  induction rest generalizing pos with
  | nil => exact lineComment?_end (Nat.le_of_eq h.length)
  | cons c rest ih =>
    by_cases hc : Ascii c
    · rw [lineComment?_step (h.getElem?_ascii hc)]
      by_cases hline : c = '\n'
      · subst hline
        rfl
      · have hbody : Lexeme.lineComment (c :: rest) = c :: Lexeme.lineComment rest :=
          List.takeWhile_cons_of_pos (bne_iff_ne.mpr hline)
        rw [if_neg ((ascii_inj hc (by decide)).not.mpr hline), ih (h.cons_ascii hc), hbody,
          Text.byteSize_cons, byteSize_of_ascii hc, Nat.add_assoc]
    · have hline : c ≠ '\n' := fun heq => hc (heq ▸ by decide)
      have hbody : Lexeme.lineComment (c :: rest) = c :: Lexeme.lineComment rest :=
        List.takeWhile_cons_of_pos (bne_iff_ne.mpr hline)
      have hskip := h.skip_char hc (lineComment? bytes) fun p b hb hhigh => by
        rw [lineComment?_step hb, if_neg (ne_ascii_of_high hhigh (by decide))]
      rw [hskip, ih h.cons, hbody, Text.byteSize_cons, Nat.add_assoc]

theorem blockComment?_end (h : bytes.length ≤ pos + 1) :
    blockComment? bytes pos = some bytes.length := by
  rw [blockComment?, if_neg (Nat.not_lt_of_le h)]

theorem blockComment?_step {next : UInt8} (h : bytes[pos]? = some b)
    (hnext : bytes[pos + 1]? = some next) : blockComment? bytes pos =
      if b = ascii '*' ∧ next = ascii '/' then some (pos + 2)
      else blockComment? bytes (pos + 1) := by
  rw [blockComment?, if_pos (lt_of_getElem? hnext), h, hnext]
  rfl

theorem blockComment?_high (h : bytes[pos]? = some b) (hhigh : 0x80 ≤ b.toNat) :
    blockComment? bytes pos = blockComment? bytes (pos + 1) := by
  cases hnext : bytes[pos + 1]? with
  | none =>
    have hend := List.getElem?_eq_none_iff.mp hnext
    rw [blockComment?_end hend, blockComment?_end (Nat.le_succ_of_le hend)]
  | some next =>
    rw [blockComment?_step h hnext, if_neg fun hmark => ne_ascii_of_high hhigh (by decide) hmark.1]

theorem blockComment?_eq (h : Stands bytes pos rest) :
    blockComment? bytes pos = some (pos + Text.byteSize (Lexeme.blockComment rest)) := by
  fun_induction Lexeme.blockComment rest generalizing pos with
  | case1 rest =>
    have hnext := h.cons_ascii (by decide)
    rw [blockComment?_step (h.getElem?_ascii (by decide)) (hnext.getElem?_ascii (by decide)),
      if_pos ⟨rfl, rfl⟩]
    rfl
  | case2 c rest hnot ih =>
    rw [Text.byteSize_cons, ← Nat.add_assoc, ← ih h.cons]
    by_cases hc : Ascii c
    · rw [byteSize_of_ascii hc]
      cases hnext : bytes[pos + 1]? with
      | none =>
        have hend := List.getElem?_eq_none_iff.mp hnext
        rw [blockComment?_end hend, blockComment?_end (Nat.le_succ_of_le hend)]
      | some next =>
        rw [blockComment?_step (h.getElem?_ascii hc) hnext, if_neg]
        rintro ⟨hstar, rfl⟩
        obtain ⟨more, rfl⟩ := List.head?_eq_some_iff.mp
          (((h.cons_ascii hc).getElem?_eq_ascii_iff (by decide)).mp hnext)
        exact hnot more ((ascii_inj hc (by decide)).mp hstar) rfl
    · exact h.skip_char hc _ fun p b hb hhigh => blockComment?_high hb hhigh
  | case3 =>
    exact (blockComment?_end (Nat.le_succ_of_le (Nat.le_of_eq h.length))).trans
      (congrArg some h.length)

theorem stringLiteral?_end {quote : UInt8} (h : bytes.length ≤ pos) :
    stringLiteral? bytes quote pos = some bytes.length := by
  rw [stringLiteral?, if_neg (Nat.not_lt_of_le h)]

theorem stringLiteral?_step {quote : UInt8} (h : bytes[pos]? = some b) :
    stringLiteral? bytes quote pos =
      if b = ascii '\\' then stringLiteral? bytes quote (pos + 2)
      else if b = ascii '\n' then some pos
      else if b = quote then some (pos + 1)
      else stringLiteral? bytes quote (pos + 1) := by
  rw [stringLiteral?, if_pos (lt_of_getElem? h), h]
  rfl

theorem stringLiteral?_high {quote : Char} (hquote : Ascii quote) (h : bytes[pos]? = some b)
    (hhigh : 0x80 ≤ b.toNat) : stringLiteral? bytes (ascii quote) pos =
      stringLiteral? bytes (ascii quote) (pos + 1) := by
  rw [stringLiteral?_step h, if_neg (ne_ascii_of_high hhigh (by decide)),
    if_neg (ne_ascii_of_high hhigh (by decide)), if_neg (ne_ascii_of_high hhigh hquote)]

theorem stringLiteral?_eq {quote : Char} (hquote : Ascii quote) (h : Stands bytes pos rest) :
    stringLiteral? bytes (ascii quote) pos =
      some (pos + Text.byteSize (Lexeme.stringLiteral quote rest)) := by
  have hbackslash : Ascii '\\' := by decide
  fun_induction Lexeme.stringLiteral quote rest generalizing pos with
  | case1 => exact (stringLiteral?_end (Nat.le_of_eq h.length)).trans (congrArg some h.length)
  | case2 =>
    have hlength : bytes.length = pos + 1 := h.length
    rw [stringLiteral?_step (h.getElem?_ascii hbackslash), if_pos rfl,
      stringLiteral?_end (by omega), hlength]
    rfl
  | case3 c rest ih =>
    have hescaped := h.cons_ascii hbackslash
    have hskip : stringLiteral? bytes (ascii quote) (pos + 1 + 1) =
        stringLiteral? bytes (ascii quote) (pos + 1 + c.utf8Size) := by
      by_cases hc : Ascii c
      · rw [byteSize_of_ascii hc]
      · exact hescaped.skip hc (stringLiteral? bytes (ascii quote))
          (fun p b hb hhigh => stringLiteral?_high hquote hb hhigh) (Char.utf8Size_pos c)
    rw [stringLiteral?_step (h.getElem?_ascii hbackslash), if_pos rfl, hskip, ih hescaped.cons,
      Text.byteSize_cons, Text.byteSize_cons, byteSize_of_ascii hbackslash]
    simp only [Nat.add_assoc]
  | case4 rest hnot hnot' =>
    rw [stringLiteral?_step (h.getElem?_ascii (by decide)), if_neg (by decide), if_pos rfl]
    rfl
  | case5 rest hlast hmore hline =>
    have hnot : quote ≠ '\\' := fun heq => by
      cases rest with
      | nil => exact hlast heq rfl
      | cons c rest => exact hmore c rest heq rfl
    rw [stringLiteral?_step (h.getElem?_ascii hquote),
      if_neg ((ascii_inj hquote hbackslash).not.mpr hnot),
      if_neg ((ascii_inj hquote (by decide)).not.mpr hline), if_pos rfl]
    exact congrArg (fun n => some (pos + n)) (byteSize_of_ascii hquote).symm
  | case6 c rest hlast hmore hline hne ih =>
    have hnot : c ≠ '\\' := fun heq => by
      cases rest with
      | nil => exact hlast heq rfl
      | cons d rest => exact hmore d rest heq rfl
    rw [Text.byteSize_cons, ← Nat.add_assoc, ← ih h.cons]
    by_cases hc : Ascii c
    · rw [stringLiteral?_step (h.getElem?_ascii hc),
        if_neg ((ascii_inj hc hbackslash).not.mpr hnot),
        if_neg ((ascii_inj hc (by decide)).not.mpr hline),
        if_neg ((ascii_inj hc hquote).not.mpr hne), byteSize_of_ascii hc]
    · exact h.skip_char hc _ fun p b hb hhigh => stringLiteral?_high hquote hb hhigh

theorem openingQuote?_end (h : bytes.length ≤ pos) : openingQuote? bytes pos = none := by
  rw [openingQuote?, dif_neg (Nat.not_lt_of_le h)]

theorem openingQuote?_step (h : bytes[pos]? = some b) : openingQuote? bytes pos =
    if b = ascii ';' ∨ b = ascii '\n' ∨ b = ascii '\r' then none
    else if b = ascii '"' ∨ b = ascii '\'' then some (pos, b)
    else openingQuote? bytes (pos + 1) := by
  obtain ⟨hlt, rfl⟩ := List.getElem?_eq_some_iff.mp h
  rw [openingQuote?, dif_pos hlt]

theorem openingQuote?_high (h : bytes[pos]? = some b) (hhigh : 0x80 ≤ b.toNat) :
    openingQuote? bytes pos = openingQuote? bytes (pos + 1) := by
  have hne : ∀ {c : Char}, Ascii c → b ≠ ascii c := ne_ascii_of_high hhigh
  rw [openingQuote?_step h,
    if_neg (not_or.mpr ⟨hne (by decide), not_or.mpr ⟨hne (by decide), hne (by decide)⟩⟩),
    if_neg (not_or.mpr ⟨hne (by decide), hne (by decide)⟩)]

theorem openingQuote?_ascii {c : Char} (h : Stands bytes pos (c :: rest)) (hc : Ascii c) :
    openingQuote? bytes pos =
      if c = ';' ∨ c = '\n' ∨ c = '\r' then none
      else if c = '"' ∨ c = '\'' then some (pos, ascii c)
      else openingQuote? bytes (pos + 1) := by
  rw [openingQuote?_step (h.getElem?_ascii hc)]
  simp only [ascii_inj hc (by decide : Ascii ';'), ascii_inj hc (by decide : Ascii '\n'),
    ascii_inj hc (by decide : Ascii '\r'), ascii_inj hc (by decide : Ascii '"'),
    ascii_inj hc (by decide : Ascii '\'')]

theorem isFiller_iff {c : Char} : Lexeme.isFiller c = true ↔
    ¬(c = ';' ∨ c = '\n' ∨ c = '\r') ∧ ¬(c = '"' ∨ c = '\'') := by
  simp [Lexeme.isFiller, Lexeme.isLineEnd, Lexeme.isQuote]

theorem openingQuote?_eq (h : Stands bytes pos rest) : openingQuote? bytes pos =
    ((rest.dropWhile Lexeme.isFiller).head?.filter Lexeme.isQuote).map fun quote =>
      (pos + Text.byteSize (rest.takeWhile Lexeme.isFiller), ascii quote) := by
  induction rest generalizing pos with
  | nil => exact openingQuote?_end (Nat.le_of_eq h.length)
  | cons c rest ih =>
    by_cases hfiller : Lexeme.isFiller c = true
    · obtain ⟨hend, hquote⟩ := isFiller_iff.mp hfiller
      rw [List.dropWhile_cons_of_pos hfiller, List.takeWhile_cons_of_pos hfiller,
        Text.byteSize_cons, ← Nat.add_assoc, ← ih h.cons]
      by_cases hc : Ascii c
      · rw [openingQuote?_ascii h hc, if_neg hend, if_neg hquote, byteSize_of_ascii hc]
      · exact h.skip_char hc _ fun p b hb hhigh => openingQuote?_high hb hhigh
    · rw [List.dropWhile_cons_of_neg hfiller, List.takeWhile_cons_of_neg hfiller, List.head?_cons]
      by_cases hend : c = ';' ∨ c = '\n' ∨ c = '\r'
      · have hc : Ascii c := by rcases hend with rfl | rfl | rfl <;> decide
        have hquote : Lexeme.isQuote c = false := by rcases hend with rfl | rfl | rfl <;> decide
        rw [openingQuote?_ascii h hc, if_pos hend, Option.filter_some_neg hquote]
        rfl
      · have hquote : c = '"' ∨ c = '\'' := by
          by_contra hnot
          exact hfiller (isFiller_iff.mpr ⟨hend, hnot⟩)
        have hc : Ascii c := by rcases hquote with rfl | rfl <;> decide
        rw [openingQuote?_ascii h hc, if_neg hend, if_pos hquote,
          Option.filter_some_pos (Lexeme.isQuote_iff.mpr hquote)]
        rfl

theorem closingQuote?_end {quote : UInt8} (h : bytes.length ≤ pos) :
    closingQuote? bytes quote pos = none := by
  rw [closingQuote?, dif_neg (Nat.not_lt_of_le h)]

theorem closingQuote?_step {quote : UInt8} (h : bytes[pos]? = some b) :
    closingQuote? bytes quote pos =
      if b = ascii '\n' ∨ b = ascii '\r' then none
      else if b = quote then some pos
    else closingQuote? bytes quote (pos + 1) := by
  obtain ⟨hlt, rfl⟩ := List.getElem?_eq_some_iff.mp h
  rw [closingQuote?, dif_pos hlt]

theorem closingQuote?_high {quote : Char} (hquote : Ascii quote) (h : bytes[pos]? = some b)
    (hhigh : 0x80 ≤ b.toNat) : closingQuote? bytes (ascii quote) pos =
      closingQuote? bytes (ascii quote) (pos + 1) := by
  have hne : ∀ {c : Char}, Ascii c → b ≠ ascii c := ne_ascii_of_high hhigh
  rw [closingQuote?_step h, if_neg (not_or.mpr ⟨hne (by decide), hne (by decide)⟩),
    if_neg (hne hquote)]

/-- Characters that may stand between two of these quotes. -/
def isInside (quote c : Char) : Bool :=
  !(Lexeme.isLineEnd c || c == quote)

theorem isInside_iff {quote c : Char} :
    isInside quote c = true ↔ ¬(c = '\n' ∨ c = '\r') ∧ c ≠ quote := by
  simp [isInside, Lexeme.isLineEnd]

theorem closingQuote?_eq {quote : Char} (hquoted : Stretch.Quote quote)
    (h : Stands bytes pos rest) : closingQuote? bytes (ascii quote) pos =
      ((rest.dropWhile (isInside quote)).head?.filter (· == quote)).map fun _ =>
        pos + Text.byteSize (rest.takeWhile (isInside quote)) := by
  have hquote : Ascii quote := by rcases hquoted with rfl | rfl <;> decide
  have hstep : ∀ {c rest pos}, Stands bytes pos (c :: rest) → Ascii c →
      closingQuote? bytes (ascii quote) pos =
        if c = '\n' ∨ c = '\r' then none
        else if c = quote then some pos
        else closingQuote? bytes (ascii quote) (pos + 1) := by
    intro c rest pos h hc
    rw [closingQuote?_step (h.getElem?_ascii hc)]
    simp only [ascii_inj hc (by decide : Ascii '\n'), ascii_inj hc (by decide : Ascii '\r'),
      ascii_inj hc hquote]
  induction rest generalizing pos with
  | nil => exact closingQuote?_end (Nat.le_of_eq h.length)
  | cons c rest ih =>
    by_cases hinside : isInside quote c = true
    · obtain ⟨hend, hne⟩ := isInside_iff.mp hinside
      rw [List.dropWhile_cons_of_pos hinside, List.takeWhile_cons_of_pos hinside,
        Text.byteSize_cons, ← Nat.add_assoc, ← ih h.cons]
      by_cases hc : Ascii c
      · rw [hstep h hc, if_neg hend, if_neg hne, byteSize_of_ascii hc]
      · exact h.skip_char hc _ fun p b hb hhigh => closingQuote?_high hquote hb hhigh
    · rw [List.dropWhile_cons_of_neg hinside, List.takeWhile_cons_of_neg hinside, List.head?_cons]
      by_cases hend : c = '\n' ∨ c = '\r'
      · have hc : Ascii c := by rcases hend with rfl | rfl <;> decide
        have hfilter : (some c).filter (· == quote) = none := by
          rcases hend with rfl | rfl <;> rcases hquoted with rfl | rfl <;> rfl
        rw [hstep h hc, if_pos hend, hfilter]
        rfl
      · have heq : c = quote := by
          by_contra hnot
          exact hinside (isInside_iff.mpr ⟨hend, hnot⟩)
        subst heq
        have hfilter : (some c).filter (· == c) = some c :=
          Option.filter_some_pos (beq_self_eq_true c)
        rw [hstep h hquote, if_neg hend, if_pos rfl, hfilter]
        rfl

theorem isPrefixOf_encode {mark : Text} (hmark : ∀ c ∈ mark, Ascii c) (t : Text) :
    (Utf8.encode mark).isPrefixOf (Utf8.encode t) = mark.isPrefixOf t := by
  induction mark generalizing t with
  | nil => rfl
  | cons k mark ih =>
    obtain ⟨hk, hmark⟩ := List.forall_mem_cons.mp hmark
    rw [Utf8.encode_cons, encodeChar_of_ascii hk, List.singleton_append]
    cases t with
    | nil => rfl
    | cons c t =>
      rw [Utf8.encode_cons, List.isPrefixOf_cons_cons]
      by_cases hc : Ascii c
      · rw [encodeChar_of_ascii hc, List.singleton_append, List.isPrefixOf_cons_cons, ih hmark]
        congr 1
        rw [Bool.eq_iff_iff, beq_iff_eq, beq_iff_eq, ascii_inj hk hc]
      · have hne : k ≠ c := fun heq => hc (heq ▸ hk)
        cases hbytes : String.utf8EncodeChar c with
        | nil =>
          have hlength := String.length_utf8EncodeChar c
          rw [hbytes] at hlength
          exact absurd hlength.symm (Nat.ne_of_gt (Char.utf8Size_pos c))
        | cons b more =>
          have hb := ne_ascii_of_high (high_of_mem hc (hbytes ▸ List.mem_cons_self)) hk
          rw [List.cons_append, List.isPrefixOf_cons_cons]
          rw [beq_eq_false_iff_ne.mpr hb.symm, beq_eq_false_iff_ne.mpr hne]
          rfl

theorem ascii_of_isWordChar {c : Char} (h : Lexeme.isWordChar c = true) : Ascii c := by
  have hbelow : ∀ {d : Char}, Ascii d → c.val ≤ d.val → Ascii c :=
    fun hd hle => Nat.lt_of_le_of_lt hle hd
  rcases Lexeme.isWordChar_iff.mp h with halphanum | rfl | rfl
  · rcases Bool.or_eq_true_iff.mp halphanum with halpha | hdigit
    · rcases Bool.or_eq_true_iff.mp halpha with hupper | hlower
      · exact hbelow (d := 'Z') (by decide) (of_decide_eq_true hupper).2
      · exact hbelow (d := 'z') (by decide)
          (of_decide_eq_true (Bool.and_eq_true_iff.mp hlower).2)
    · exact hbelow (d := '9') (by decide) (of_decide_eq_true (Bool.and_eq_true_iff.mp hdigit).2)
  · decide
  · decide

/-- The first byte of a character goes on with a word if the character does. -/
theorem Stands.exists_wordByte {c : Char} (h : Stands bytes pos (c :: rest)) :
    ∃ b, bytes[pos]? = some b ∧ isWordByte b = Lexeme.isWordChar c := by
  by_cases hc : Ascii c
  · refine ⟨_, h.getElem?_ascii hc, ?_⟩
    rw [isWordByte, toNat_ascii hc, Char.ofNat_toNat]
  · obtain ⟨b, hb, hhigh⟩ := h.getElem?_high hc (Char.utf8Size_pos c)
    refine ⟨b, hb, ?_⟩
    have hvalid : b.toNat.isValidChar := .inl (Nat.lt_trans b.toNat_lt (by decide))
    have hnat : (Char.ofNat b.toNat).toNat = b.toNat := by
      rw [Char.ofNat, dif_pos hvalid]
      rfl
    have hnot : ¬Ascii (Char.ofNat b.toNat) := by
      rw [Ascii, hnat]
      exact Nat.not_lt_of_le hhigh
    rw [isWordByte, Bool.eq_false_iff.mpr (mt ascii_of_isWordChar hnot),
      Bool.eq_false_iff.mpr (mt ascii_of_isWordChar hc)]

theorem startsKeyword?_eq (h : Stands bytes pos rest) : startsKeyword? bytes pos =
    some (match Text.after? Lexeme.keyword rest with
      | some (c :: _) => !Lexeme.isWordChar c
      | _ => false) := by
  have hdrop : bytes.drop pos = Utf8.encode rest := by
    obtain ⟨front, rfl, rfl⟩ := h
    exact List.drop_left
  rw [startsKeyword?, if_pos (h.length ▸ Nat.le_add_right _ _), hdrop,
    isPrefixOf_encode (by decide), Text.after?]
  cases hstarts : Lexeme.keyword.isPrefixOf rest with
  | false => rfl
  | true =>
    obtain ⟨more, rfl⟩ := List.isPrefixOf_iff_prefix.mp hstarts
    have hmore : Stands bytes (pos + Lexeme.keyword.length) more := h.append
    rw [if_pos rfl, List.drop_left, Bool.true_and]
    cases more with
    | nil =>
      have hend : bytes[pos + Lexeme.keyword.length]? = none :=
        List.getElem?_eq_none (Nat.le_of_eq hmore.length)
      rw [hend]
    | cons c more =>
      obtain ⟨b, hb, hword⟩ := hmore.exists_wordByte
      rw [hb]
      exact congrArg (fun word => some !word) hword

end Loops

/-! ## Directives -/

end Bytewise

/-- The directive that a lexeme is, if it begins at this byte. -/
def Lexeme.directive? (offset : Nat) : Lexeme → Option Directive
  | .plain _ => none
  | .directive filler quote specifier =>
    some ⟨specifier, offset, offset + Text.byteSize (Lexeme.directive filler quote specifier).text⟩

theorem Lexeme.directives_cons (offset : Nat) (lexeme : Lexeme) (ls : List Lexeme) :
    Lexeme.directives offset (lexeme :: ls) =
      (lexeme.directive? offset).toList ++
        Lexeme.directives (offset + Text.byteSize lexeme.text) ls := by
  cases lexeme <;> rfl

theorem Text.byteSize_eq_zero {t : Text} : Text.byteSize t = 0 ↔ t = [] := by
  cases t with
  | nil => simp [Text.byteSize]
  | cons c t =>
    have hc := Char.utf8Size_pos c
    rw [Text.byteSize_cons]
    simp
    omega

theorem Text.slice?_append (before piece after : Text) :
    Text.slice? (Text.byteSize before) (Text.byteSize before + Text.byteSize piece)
      (before ++ (piece ++ after)) = some piece := by
  rw [Text.slice?, if_pos (Nat.le_add_right _ _), Nat.add_sub_cancel_left]
  simp only [Text.cutBytes?_append, Option.bind_eq_bind, Option.bind_some]
  rfl

namespace Bytewise

theorem stands_byteSize (before rest : Text) :
    Stands (Utf8.encode (before ++ rest)) (Text.byteSize before) rest := by
  have h := (stands_zero (before ++ rest)).append
  rwa [Nat.zero_add] at h

/-- What the lexer reads behind the keyword, when a quote ends the filler. -/
theorem afterKeyword?_of_dropWhile {t rest : Text} {quote : Char}
    (h : t.dropWhile Lexeme.isFiller = quote :: rest) : Lexeme.afterKeyword? t =
      if Lexeme.isQuote quote && !(t.takeWhile Lexeme.isFiller).isEmpty &&
          !(rest.takeWhile (isInside quote)).isEmpty &&
            (rest.dropWhile (isInside quote)).head? == some quote then
        some (.directive (t.takeWhile Lexeme.isFiller) quote (rest.takeWhile (isInside quote)))
      else none := by
  rw [Lexeme.afterKeyword?, h]
  rfl

theorem byteSize_ascii {c : Char} (hc : Ascii c) : Text.byteSize [c] = 1 :=
  byteSize_of_ascii hc

theorem byteSize_directive {filler specifier : Text} {quote : Char} (hquote : Ascii quote) :
    Text.byteSize (Lexeme.directive filler quote specifier).text =
      Lexeme.keyword.length + Text.byteSize filler + 1 + Text.byteSize specifier + 1 := by
  rw [Lexeme.text]
  simp only [Text.byteSize_append, byteSize_ascii hquote]
  rfl

/-- Where the specifier of a directive stands. -/
theorem slice?_specifier {before filler specifier more : Text} {quote : Char}
    (hquote : Ascii quote) :
    Text.slice? (Text.byteSize before + Lexeme.keyword.length + Text.byteSize filler + 1)
        (Text.byteSize before + Lexeme.keyword.length + Text.byteSize filler + 1 +
          Text.byteSize specifier)
        (before ++ (Lexeme.keyword ++ (filler ++ quote :: (specifier ++ quote :: more)))) =
      some specifier := by
  have hslice := Text.slice?_append (before ++ Lexeme.keyword ++ filler ++ [quote]) specifier
    (quote :: more)
  have hkeyword : Text.byteSize Lexeme.keyword = Lexeme.keyword.length := rfl
  simp only [Text.byteSize_append, byteSize_ascii hquote, hkeyword] at hslice
  simpa using hslice

section Quotes

variable {source : Text} {start pos opening closing : Nat} {quote : UInt8}

theorem directive?_of_not_opened (hopening : openingQuote? (Utf8.encode source) pos = none) :
    directive? source start pos = some none := by
  rw [directive?, hopening]

theorem directive?_of_not_closed
    (hopening : openingQuote? (Utf8.encode source) pos = some (opening, quote))
    (hclosing : closingQuote? (Utf8.encode source) quote (opening + 1) = none) :
    directive? source start pos = some none := by
  rw [directive?, hopening]
  dsimp only
  rw [hclosing, ite_self]

theorem directive?_of_closed
    (hopening : openingQuote? (Utf8.encode source) pos = some (opening, quote))
    (hclosing : closingQuote? (Utf8.encode source) quote (opening + 1) = some closing) :
    directive? source start pos =
      if opening = pos ∨ closing = opening + 1 then some none
      else (Text.slice? (opening + 1) closing source).map fun specifier =>
        some ⟨specifier, start, closing + 1⟩ := by
  rw [directive?, hopening]
  dsimp only
  rw [hclosing]
  dsimp only
  rw [ite_or]
  cases Text.slice? (opening + 1) closing source <;> rfl

end Quotes

/-- A directive that is written out is found, if neither filler nor specifier is empty. -/
theorem directive?_written {before filler specifier more : Text} {quote : Char} {opening : Nat}
    (hascii : Ascii quote)
    (hstart : opening = Text.byteSize before + Lexeme.keyword.length + Text.byteSize filler)
    (hopening : openingQuote? (Utf8.encode (before ++ (Lexeme.keyword ++ (filler ++
      quote :: (specifier ++ quote :: more))))) (Text.byteSize before + Lexeme.keyword.length) =
        some (opening, ascii quote))
    (hclosing : closingQuote? (Utf8.encode (before ++ (Lexeme.keyword ++ (filler ++
      quote :: (specifier ++ quote :: more))))) (ascii quote) (opening + 1) =
        some (opening + 1 + Text.byteSize specifier)) :
    directive? (before ++ (Lexeme.keyword ++ (filler ++ quote :: (specifier ++ quote :: more))))
        (Text.byteSize before) (Text.byteSize before + Lexeme.keyword.length) =
      some (if !filler.isEmpty && !specifier.isEmpty then
        (Lexeme.directive filler quote specifier).directive? (Text.byteSize before) else none) := by
  subst hstart
  rw [directive?_of_closed hopening hclosing, slice?_specifier hascii]
  by_cases hempty : filler = [] ∨ specifier = []
  · have hnot : ¬(!filler.isEmpty && !specifier.isEmpty) = true := by
      rcases hempty with rfl | rfl <;> simp
    rw [if_pos (hempty.imp (fun h => by rw [h]; rfl) fun h => by rw [h]; rfl), if_neg hnot]
  · obtain ⟨hne, hne'⟩ := not_or.mp hempty
    have hfiller := mt Text.byteSize_eq_zero.mp hne
    have hspecifier := mt Text.byteSize_eq_zero.mp hne'
    rw [if_neg (by omega), if_pos (by simp [hne, hne']), Option.map_some, Lexeme.directive?,
      byteSize_directive hascii]
    simp only [Nat.add_assoc]

/-- Behind the keyword, the positions of the quotes are where the lexer has them. -/
theorem directive?_eq (before t : Text) :
    directive? (before ++ (Lexeme.keyword ++ t)) (Text.byteSize before)
        (Text.byteSize before + Lexeme.keyword.length) =
      some ((Lexeme.afterKeyword? t).bind fun lexeme =>
        lexeme.directive? (Text.byteSize before)) := by
  have hstands := (stands_byteSize before (Lexeme.keyword ++ t)).append
  have hkeyword : Text.byteSize Lexeme.keyword = Lexeme.keyword.length := rfl
  rw [hkeyword] at hstands
  have hopening := openingQuote?_eq hstands
  cases hdrop : t.dropWhile Lexeme.isFiller with
  | nil =>
    rw [hdrop] at hopening
    rw [directive?_of_not_opened hopening, Lexeme.afterKeyword?, hdrop]
    rfl
  | cons quote rest =>
    have hfiller : t.takeWhile Lexeme.isFiller ++ quote :: rest = t := by
      rw [← hdrop, List.takeWhile_append_dropWhile]
    rw [afterKeyword?_of_dropWhile hdrop]
    rw [hdrop, List.head?_cons] at hopening
    generalize t.takeWhile Lexeme.isFiller = filler at hfiller hopening
    subst hfiller
    by_cases hquote : Lexeme.isQuote quote = true
    swap
    · rw [Option.filter_some_neg (by simpa using hquote)] at hopening
      rw [directive?_of_not_opened hopening]
      simp [hquote]
    have hquoted := Lexeme.isQuote_iff.mp hquote
    have hascii : Ascii quote := by rcases hquoted with rfl | rfl <;> decide
    have hclosing := closingQuote?_eq hquoted (hstands.append.cons_ascii hascii)
    rw [Option.filter_some_pos hquote] at hopening
    rw [hquote, Bool.true_and]
    by_cases hends : (rest.dropWhile (isInside quote)).head? = some quote
    swap
    · have hfilter : (rest.dropWhile (isInside quote)).head?.filter (· == quote) = none :=
        Option.filter_eq_none_iff.mpr fun c hc heq => hends (by rw [hc, beq_iff_eq.mp heq])
      rw [hfilter] at hclosing
      rw [directive?_of_not_closed hopening hclosing]
      simp [hends]
    obtain ⟨more, hmore⟩ := List.head?_eq_some_iff.mp hends
    have hspecifier : rest.takeWhile (isInside quote) ++ quote :: more = rest := by
      rw [← hmore, List.takeWhile_append_dropWhile]
    have hfilter : (some quote).filter (· == quote) = some quote :=
      Option.filter_some_pos (beq_self_eq_true quote)
    rw [hends, hfilter] at hclosing
    rw [hends, beq_self_eq_true, Bool.and_true]
    generalize rest.takeWhile (isInside quote) = specifier at hspecifier hclosing
    subst hspecifier
    rw [directive?_written hascii rfl hopening hclosing]
    split <;> rfl

/-! ## The scan -/

section Steps

variable {source rest : Text} {pos : Nat} {c : Char}

theorem first_slash (hstar : rest.head? ≠ some '*') (hslash : rest.head? ≠ some '/') :
    Lexeme.first '/' rest = .plain ['/'] := by
  unfold Lexeme.first
  split
  · exact absurd rfl hstar
  · exact absurd rfl hslash
  · rename_i heq
    exact absurd heq (by decide)
  · rfl

theorem afterKeyword?_directive {t : Text} {lexeme : Lexeme}
    (h : Lexeme.afterKeyword? t = some lexeme) (offset : Nat) :
    ∃ d, lexeme.directive? offset = some d ∧ d.stop = offset + Text.byteSize lexeme.text := by
  obtain ⟨filler, quote, specifier, rfl, -⟩ := Lexeme.afterKeyword?_isPrefix h
  exact ⟨_, rfl, rfl⟩

/-- At an `@` the keyword check and the reading of a directive find what the lexer finds. -/
theorem atWord_step (before rest : Text) :
    (do
      if ← startsKeyword? (Utf8.encode (before ++ '@' :: rest)) (Text.byteSize before) then
        match ← directive? (before ++ '@' :: rest) (Text.byteSize before)
            (Text.byteSize before + Lexeme.keyword.length) with
        | some d => return (d.stop, some d)
        | none => return (Text.byteSize before + Lexeme.keyword.length, none)
      else return (Text.byteSize before + 1, none) : Option (Nat × Option Directive)) =
      some (Text.byteSize before + Text.byteSize (Lexeme.atWord rest).text,
        (Lexeme.atWord rest).directive? (Text.byteSize before)) := by
  rw [startsKeyword?_eq (stands_byteSize before ('@' :: rest)), Lexeme.atWord]
  cases hafter : Text.after? Lexeme.keyword ('@' :: rest) with
  | none => rfl
  | some more =>
    cases more with
    | nil => rfl
    | cons c more =>
      rw [Text.eq_of_after? hafter, directive?_eq]
      cases hword : Lexeme.isWordChar c with
      | true => simp [hword, Lexeme.text, byteSize_ascii (by decide : Ascii '@'), Lexeme.directive?]
      | false =>
        cases hdirective : Lexeme.afterKeyword? (c :: more) with
        | none =>
          have hkeyword : Text.byteSize Lexeme.keyword = Lexeme.keyword.length := rfl
          simp [hword, hdirective, Lexeme.text, Lexeme.directive?, hkeyword]
        | some lexeme =>
          obtain ⟨d, hd, hstop⟩ := afterKeyword?_directive hdirective (Text.byteSize before)
          simp [hword, hdirective, hd, hstop]

/-- An ASCII character begins the lexeme that the lexer cuts off there. -/
theorem step?_first (before : Text) (hc : Ascii c) (rest : Text) :
    step? (before ++ c :: rest) (Text.byteSize before) =
      some (Text.byteSize before + Text.byteSize (Lexeme.first c rest).text,
        (Lexeme.first c rest).directive? (Text.byteSize before)) := by
  have h := stands_byteSize before (c :: rest)
  have hnext := h.cons_ascii hc
  have hslash : ascii c = ascii '/' ↔ c = '/' := ascii_inj hc (by decide)
  have hat : ascii c = ascii '@' ↔ c = '@' := ascii_inj hc (by decide)
  have hquote : ascii c = ascii '"' ∨ ascii c = ascii '\'' ↔ Stretch.Quote c :=
    or_congr (ascii_inj hc (by decide)) (ascii_inj hc (by decide))
  have hblock := hnext.getElem?_eq_ascii_iff (c := '*') (by decide)
  have hline := hnext.getElem?_eq_ascii_iff (c := '/') (by decide)
  rw [step?]
  simp only [h.getElem?_ascii hc, Option.bind_eq_bind, Option.bind_some]
  by_cases hstar : c = '/' ∧ rest.head? = some '*'
  · obtain ⟨rfl, hstar⟩ := hstar
    obtain ⟨body, rfl⟩ := List.head?_eq_some_iff.mp hstar
    rw [if_pos ⟨rfl, hblock.mpr hstar⟩, blockComment?_eq (hnext.cons_ascii (by decide)),
      Lexeme.first_blockComment, Lexeme.text, Text.byteSize_cons, Text.byteSize_cons,
      ← Nat.add_assoc, ← Nat.add_assoc]
    rfl
  · rw [if_neg (by rwa [hslash, hblock])]
    by_cases hsecond : c = '/' ∧ rest.head? = some '/'
    · obtain ⟨rfl, hsecond⟩ := hsecond
      obtain ⟨body, rfl⟩ := List.head?_eq_some_iff.mp hsecond
      rw [if_pos ⟨rfl, hline.mpr hsecond⟩, lineComment?_eq (hnext.cons_ascii (by decide)),
        Lexeme.first_lineComment, Lexeme.text, Text.byteSize_cons, Text.byteSize_cons,
        ← Nat.add_assoc, ← Nat.add_assoc]
      rfl
    · rw [if_neg (by rwa [hslash, hline])]
      by_cases hquoted : Stretch.Quote c
      · rw [if_pos (hquote.mpr hquoted), stringLiteral?_eq hc hnext, Lexeme.first_quote hquoted,
          Lexeme.text, Text.byteSize_cons, byteSize_of_ascii hc, ← Nat.add_assoc]
        rfl
      · rw [if_neg (by rwa [hquote])]
        by_cases hword : c = '@'
        · subst hword
          rw [if_pos rfl]
          exact atWord_step before rest
        · rw [if_neg (by rwa [hat])]
          have hplain : Lexeme.first c rest = .plain [c] := by
            by_cases heq : c = '/'
            · subst heq
              exact first_slash (fun h => hstar ⟨rfl, h⟩) fun h => hsecond ⟨rfl, h⟩
            · exact Lexeme.first_of_plain ⟨heq, hword, hquoted⟩ rest
          rw [hplain, Lexeme.text, byteSize_ascii hc]
          rfl

theorem step?_high {b : UInt8} (h : (Utf8.encode source)[pos]? = some b) (hhigh : 0x80 ≤ b.toNat) :
    step? source pos = some (pos + 1, none) := by
  have hne : ∀ {c : Char}, Ascii c → b ≠ ascii c := ne_ascii_of_high hhigh
  rw [step?]
  simp only [h, Option.bind_eq_bind, Option.bind_some, hne (by decide : Ascii '/'),
    hne (by decide : Ascii '"'), hne (by decide : Ascii '\''), hne (by decide : Ascii '@'),
    false_and, or_false, if_false]
  rfl

/-- Before the end a scan takes a step. -/
theorem Scans.exists_step {ds : List Directive} (h : Scans source pos ds)
    (hpos : pos < (Utf8.encode source).length) : ∃ next found rest,
      step? source pos = some (next, found) ∧ Scans source next rest ∧
        ds = found.toList ++ rest := by
  cases h with
  | stop hend => exact absurd hpos (Nat.not_lt_of_le hend)
  | step _ hstep hrest => exact ⟨_, _, _, hstep, hrest, rfl⟩

/-- A scan finds nothing else. -/
theorem Scans.unique {ds ds' : List Directive} (h : Scans source pos ds)
    (h' : Scans source pos ds') : ds = ds' := by
  induction h generalizing ds' with
  | stop hend =>
    cases h' with
    | stop => rfl
    | step hpos => exact absurd hpos (Nat.not_lt_of_le hend)
  | step hpos hstep _ ih =>
    obtain ⟨next, found, rest, hstep', hrest, rfl⟩ := h'.exists_step hpos
    cases hstep.symm.trans hstep'
    rw [ih hrest]

theorem scans_high {b : UInt8} (h : (Utf8.encode source)[pos]? = some b) (hhigh : 0x80 ≤ b.toNat)
    (ds : List Directive) : Scans source pos ds ↔ Scans source (pos + 1) ds := by
  constructor
  · intro hscans
    obtain ⟨next, found, rest, hstep, hrest, rfl⟩ := hscans.exists_step (lt_of_getElem? h)
    rw [step?_high h hhigh] at hstep
    cases hstep
    exact hrest
  · exact .step (lt_of_getElem? h) (step?_high h hhigh)

/-- Behind a text that was scanned, a scan goes on to the end and finds the directives that the
lexer finds. -/
theorem scans_listAfter (before rest : Text) : Scans (before ++ rest) (Text.byteSize before)
    (Lexeme.directives (Text.byteSize before) (Lexeme.listAfter 0 rest)) := by
  induction hlength : rest.length using Nat.strongRecOn generalizing before rest with
  | ind n ih =>
    cases rest with
    | nil =>
      exact .stop (Nat.le_of_eq (stands_byteSize before []).length)
    | cons c rest =>
      have h := stands_byteSize before (c :: rest)
      by_cases hc : Ascii c
      · obtain ⟨⟨tail, htail⟩, hne⟩ := Lexeme.first_isPrefix c rest
        have hshort : tail.length < n := by
          have hlength' := congrArg List.length htail
          have hpos := List.length_pos_iff.mpr hne
          rw [List.length_append] at hlength'
          omega
        have htail' := ih _ hshort (before ++ (Lexeme.first c rest).text) tail rfl
        rw [List.append_assoc, htail, Text.byteSize_append] at htail'
        rw [Lexeme.listAfter_cons tail rfl htail, Lexeme.directives_cons]
        exact .step (lt_of_getElem? (h.getElem?_ascii hc)) (step?_first before hc rest) htail'
      · have hfirst : Lexeme.first c rest = .plain [c] := by
          refine Lexeme.first_of_plain ⟨?_, ?_, ?_⟩ rest
          · exact fun heq => hc (heq ▸ by decide)
          · exact fun heq => hc (heq ▸ by decide)
          · rintro (heq | heq) <;> exact hc (heq ▸ by decide)
        have hrest := ih _ (by rw [← hlength]; exact Nat.lt_succ_self _) (before ++ [c]) rest rfl
        have hsize : Text.byteSize (before ++ [c]) = Text.byteSize before + c.utf8Size :=
          Text.byteSize_append before [c]
        rw [List.append_assoc, List.singleton_append, hsize] at hrest
        rw [Lexeme.listAfter_cons rest hfirst rfl, Lexeme.directives]
        refine (h.skip_char hc (fun p => Scans _ p _) fun p b hb hhigh => ?_).mpr hrest
        exact propext (scans_high hb hhigh _)

end Steps

/-- A scan byte by byte gets to the end and finds the directives of the source, also if the source
is without the keyword. -/
theorem scans_iff (source : Text) (ds : List Directive) :
    Scans source 0 ds ↔ ds = Directive.scan source := by
  have hscans : Scans source 0 (Directive.scan source) := by
    rw [Directive.scan_eq_directives]
    exact scans_listAfter [] source
  exact ⟨fun h => h.unique hscans, fun h => h ▸ hscans⟩

end Bytewise

end StyleBatch
