import StyleBatch.Json.Reader
import StyleBatch.Proofs.Text

/-!
# What is written is read back

A value is written without blanks, and where it ends its reader stops: at a comma, at a closing
bracket or at the end.  So a value is read back from what is written of it, with whatever follows
left over, and the parts of a value are written one behind the other.  Numbers that keep only
their text are left out, and so are integers that do not fit.

* `Json.stringTail?_escaped`: string literals are read back, whatever is in them.
* `Json.value?_write`: so are values, in front of a text that does not continue them.
* `Json.not_mem_write`: no value is written with a line feed.
-/

namespace StyleBatch.Json

/-! ## String literals -/

theorem hexValue?_hexDigit (n : Nat) : hexValue? (hexDigit n) = some (n % 16) := by
  have hdigits : ∀ m < 16, hexValue? (Nat.digitChar m) = some m := by decide
  exact hdigits _ (Nat.mod_lt n (by decide))

/-- A control character is read back from its code. -/
theorem unicodeEscape?_control {c : Char} (h : c.toNat < 0x20) (rest : Text) :
    unicodeEscape? ('0' :: '0' :: hexDigit (c.toNat / 16) :: hexDigit c.toNat :: rest) =
      some (c, rest) := by
  have hzero : hexValue? '0' = some 0 := by decide
  have hunit : 0 * 4096 + 0 * 256 + c.toNat / 16 % 16 * 16 + c.toNat % 16 = c.toNat := by omega
  simp only [unicodeEscape?, codeUnit?, hzero, hexValue?_hexDigit, Option.bind_eq_bind,
    Option.bind_some, Option.pure_def, hunit]
  rw [if_neg (by simp; omega), if_neg (by simp; omega), Char.ofNat_toNat]

theorem hexDigit_ne (n : Nat) : hexDigit n ≠ '\n' := by
  have hdigits : ∀ m < 16, Nat.digitChar m ≠ '\n' := by decide
  exact hdigits _ (Nat.mod_lt n (by decide))

/-- A character is escaped, and its escape is read back, or it stands for itself. -/
theorem escapeChar_cases (c : Char) :
    (∃ t, escapeChar c = '\\' :: t ∧ '\n' ∉ t ∧ ∀ rest, escape? (t ++ rest) = some (c, rest)) ∨
      escapeChar c = [c] ∧ c ≠ '"' ∧ c ≠ '\\' ∧ ¬c.toNat < 0x20 := by
  unfold escapeChar
  split
  · rename_i h
    subst h
    exact Or.inl ⟨['"'], rfl, by decide, fun _ => rfl⟩
  split
  · rename_i h
    subst h
    exact Or.inl ⟨['\\'], rfl, by decide, fun _ => rfl⟩
  split
  · rename_i h
    subst h
    exact Or.inl ⟨['b'], rfl, by decide, fun _ => rfl⟩
  split
  · rename_i h
    subst h
    exact Or.inl ⟨['f'], rfl, by decide, fun _ => rfl⟩
  split
  · rename_i h
    subst h
    exact Or.inl ⟨['n'], rfl, by decide, fun _ => rfl⟩
  split
  · rename_i h
    subst h
    exact Or.inl ⟨['r'], rfl, by decide, fun _ => rfl⟩
  split
  · rename_i h
    subst h
    exact Or.inl ⟨['t'], rfl, by decide, fun _ => rfl⟩
  split
  · rename_i h
    refine Or.inl ⟨_, rfl, ?_, unicodeEscape?_control h⟩
    simp [(hexDigit_ne _).symm]
  · rename_i hquote hback _ _ _ _ _ hcontrol
    exact Or.inr ⟨rfl, hquote, hback, hcontrol⟩

/-- A string literal is read back, whatever follows it. -/
theorem stringTail?_escaped {fuel : Nat} {t : Text} (h : t.length < fuel) (rest : Text) :
    stringTail? fuel (t.flatMap escapeChar ++ '"' :: rest) = some (t, rest) := by
  induction t generalizing fuel with
  | nil =>
    obtain ⟨fuel, rfl⟩ := Nat.exists_eq_add_one.mpr (Nat.zero_lt_of_lt h)
    simp [stringTail?]
  | cons c t ih =>
    obtain ⟨fuel, rfl⟩ := Nat.exists_eq_add_one.mpr (Nat.zero_lt_of_lt h)
    have hrest := ih (Nat.lt_of_succ_lt_succ h)
    rw [List.flatMap_cons, List.append_assoc]
    rcases escapeChar_cases c with ⟨escaped, heq, -, hescape⟩ | ⟨heq, hquote, hback, hcontrol⟩
    · rw [heq, List.cons_append, stringTail?, if_neg (by decide), if_pos rfl, hescape]
      simp [hrest]
    · rw [heq, List.singleton_append, stringTail?, if_neg hquote, if_neg hback, if_neg hcontrol]
      simp [hrest]

theorem length_le_escaped (t : Text) : t.length ≤ (t.flatMap escapeChar).length := by
  induction t with
  | nil => exact Nat.le_refl _
  | cons c t ih =>
    have hc : 1 ≤ (escapeChar c).length := by
      rcases escapeChar_cases c with ⟨escaped, heq, -⟩ | ⟨heq, -⟩ <;> rw [heq] <;> simp
    rw [List.flatMap_cons, List.length_append, List.length_cons]
    omega

/-- The fuel of a literal is the length of all that follows its opening quote. -/
theorem stringTail?_writeString (t rest : Text) :
    stringTail? ((t.flatMap escapeChar ++ '"' :: rest).length + 1)
      (t.flatMap escapeChar ++ '"' :: rest) = some (t, rest) := by
  refine stringTail?_escaped ?_ rest
  have hlength := length_le_escaped t
  rw [List.length_append]
  omega

theorem writeString_append (t rest : Text) :
    writeString t ++ rest = '"' :: (t.flatMap escapeChar ++ '"' :: rest) := by
  simp [writeString]

theorem not_mem_writeString (t : Text) : '\n' ∉ writeString t := by
  simp only [writeString, List.cons_append, List.mem_cons, List.mem_append, List.mem_flatMap,
    List.not_mem_nil, or_false, not_or, not_exists, not_and]
  refine ⟨by decide, fun c _ hc => ?_, by decide⟩
  rcases escapeChar_cases c with ⟨escaped, heq, hescaped, -⟩ | ⟨heq, -, -, hcontrol⟩
  · rw [heq] at hc
    rcases List.mem_cons.mp hc with hc | hc
    · cases hc
    · exact hescaped hc
  · rw [heq, List.mem_singleton] at hc
    exact hcontrol (hc ▸ by decide)

/-! ## Numbers -/

/-- The value before this text ends here: it is at its end, or a comma or a bracket follows. -/
def Ends (t : Text) : Prop :=
  ∀ c ∈ t.head?, c = ',' ∨ c = ']' ∨ c = '\x7d'

theorem digitsValue_ofNat (n : Nat) : digitsValue (Text.ofNat n) = n := by
  have hvalue : digitsValue (Text.ofNat n) = Nat.ofDigitChars 10 (Nat.toDigits 10 n) 0 := by
    simp only [digitsValue, Text.ofNat, Nat.ofDigitChars, Nat.mul_comm]
  rw [hvalue, Nat.ofDigitChars_toDigits (by decide) (by decide)]

theorem isDigit_of_mem_ofNat {n : Nat} {c : Char} (h : c ∈ Text.ofNat n) : c.isDigit = true :=
  Nat.isDigit_of_mem_toDigits (by decide) (by decide) h

/-- Only zero is written with a zero in front. -/
theorem head?_ofNat {n : Nat} (h : 0 < n) : (Text.ofNat n).head? ≠ some '0' := by
  induction n using Nat.strongRecOn with
  | ind n ih =>
    rw [Text.ofNat]
    by_cases hn : n < 10
    · rw [Nat.toDigits_of_lt_base hn]
      have hdigits : ∀ m < 10, 0 < m → [Nat.digitChar m].head? ≠ some '0' := by decide
      exact hdigits n hn h
    · have hrest := ih (n / 10) (by omega) (by omega)
      obtain ⟨c, t, ht⟩ := List.exists_cons_of_ne_nil (Nat.toDigits_ne_nil (n := n / 10) (b := 10))
      rw [Text.ofNat, ht] at hrest
      rw [Nat.toDigits_of_base_le (by decide) (by omega), ht]
      exact hrest

theorem isWholePart_ofNat (n : Nat) : isWholePart (Text.ofNat n) = true := by
  rcases Nat.eq_zero_or_pos n with rfl | hn
  · rfl
  · have hhead := head?_ofNat hn
    have hne : Text.ofNat n ≠ [] := Nat.toDigits_ne_nil
    generalize Text.ofNat n = t at hhead hne
    unfold isWholePart
    split
    · exact absurd rfl hne
    · exact absurd rfl hhead
    · exact absurd rfl hhead
    · rfl

theorem takeWhile_ofNat (n : Nat) {rest : Text} (hrest : Ends rest) :
    (Text.ofNat n ++ rest).takeWhile Char.isDigit = Text.ofNat n ∧
      (Text.ofNat n ++ rest).dropWhile Char.isDigit = rest := by
  have hdigits : ∀ c ∈ Text.ofNat n, c.isDigit = true := fun c hc => isDigit_of_mem_ofNat hc
  rw [List.takeWhile_append_of_pos hdigits, List.dropWhile_append_of_pos hdigits]
  cases rest with
  | nil => simp
  | cons c rest =>
    have hc : c.isDigit = false := by
      rcases hrest c rfl with rfl | rfl | rfl <;> decide
    simp [hc]

theorem Ends.fraction? {rest : Text} (h : Ends rest) : fraction? rest = some ([], rest) := by
  unfold Json.fraction?
  split
  · rename_i digits
    rcases h '.' rfl with h | h | h <;> cases h
  · rfl

theorem Ends.exponent? {rest : Text} (h : Ends rest) : exponent? rest = some ([], rest) := by
  cases rest with
  | nil => rfl
  | cons c rest =>
    rw [Json.exponent?, if_neg]
    rcases h c rfl with rfl | rfl | rfl <;> decide

/-- The digits of an integer that fits are read back with its sign. -/
theorem number?_ofNat {negative : Bool} {n : Nat} {v : Int}
    (hv : v = if negative then -(n : Int) else n) (hfits : fitsInteger v = true)
    (hnegative : negative = true → 0 < n) {rest : Text} (hrest : Ends rest) :
    number? negative (Text.ofNat n ++ rest) = some (.int v, rest) := by
  obtain ⟨htake, hdrop⟩ := takeWhile_ofNat n hrest
  have hzero : (negative && v == 0) = false := by
    cases negative with
    | false => rfl
    | true =>
      have hn := hnegative rfl
      simp only [Bool.true_and, beq_eq_false_iff_ne, hv, if_true]
      omega
  rw [number?]
  simp only [htake, hdrop, isWholePart_ofNat, hrest.fraction?, Option.bind_eq_bind,
    Option.bind_some, hrest.exponent?, digitsValue_ofNat, ← hv, hfits, hzero]
  rfl

/-! ## Values -/

mutual

/-- A value that keeps its meaning when it is written: its numbers are integers that fit. -/
def Legible : Json → Prop
  | .null | .bool _ | .string _ => True
  | .int n => fitsInteger n = true
  | .real _ => False
  | .array items => LegibleItems items
  | .object members => LegibleMembers members

def LegibleItems : List Json → Prop
  | [] => True
  | v :: rest => Legible v ∧ LegibleItems rest

def LegibleMembers : List (Text × Json) → Prop
  | [] => True
  | (_, v) :: rest => Legible v ∧ LegibleMembers rest

end

/-- A text that begins with something that is no blank and no closing bracket. -/
def Begins (t : Text) : Prop :=
  ∃ c rest, t = c :: rest ∧ isSpace c = false ∧ c ≠ ']'

theorem Begins.append {t : Text} (h : Begins t) (rest : Text) : Begins (t ++ rest) := by
  obtain ⟨c, t, rfl, hc⟩ := h
  exact ⟨c, t ++ rest, rfl, hc⟩

theorem Begins.skipSpace {t : Text} (h : Begins t) : skipSpace t = t := by
  obtain ⟨c, t, rfl, hc, -⟩ := h
  simp [Json.skipSpace, hc]

theorem exists_cons_ofNat (n : Nat) : ∃ c t, Text.ofNat n = c :: t ∧ c.isDigit = true := by
  obtain ⟨c, t, ht⟩ := List.exists_cons_of_ne_nil (Nat.toDigits_ne_nil (n := n) (b := 10))
  exact ⟨c, t, ht, isDigit_of_mem_ofNat (n := n) (by rw [Text.ofNat, ht]; simp)⟩

theorem begins_ofNat (n : Nat) : Begins (Text.ofNat n) := by
  obtain ⟨c, t, ht, hc⟩ := exists_cons_ofNat n
  refine ⟨c, t, ht, ?_, ?_⟩
  · rw [Bool.eq_false_iff]
    intro hspace
    simp only [isSpace, Bool.or_eq_true, beq_iff_eq] at hspace
    rcases hspace with ((rfl | rfl) | rfl) | rfl <;> exact absurd hc (by decide)
  · rintro rfl
    exact absurd hc (by decide)

theorem begins_write {v : Json} (h : v.Legible) : Begins v.write := by
  cases v with
  | null => exact ⟨'n', ['u', 'l', 'l'], rfl, rfl, by decide⟩
  | bool b =>
    cases b
    · exact ⟨'f', ['a', 'l', 's', 'e'], rfl, rfl, by decide⟩
    · exact ⟨'t', ['r', 'u', 'e'], rfl, rfl, by decide⟩
  | int n =>
    rw [write, Text.ofInt]
    split
    · exact ⟨'-', _, rfl, rfl, by decide⟩
    · exact begins_ofNat _
  | real t => exact absurd h id
  | string t => exact ⟨'"', _, rfl, rfl, by decide⟩
  | array items => exact ⟨'[', _, rfl, rfl, by decide⟩
  | object members => exact ⟨'\x7b', _, rfl, rfl, by decide⟩

theorem begins_writeItems {v : Json} (vs : List Json) (h : v.Legible) :
    Begins (writeItems (v :: vs)) := by
  cases vs with
  | nil => exact begins_write h
  | cons w vs => exact (begins_write h).append _

/-! ### One step of the reader -/

theorem value?_digit (fuel : Nat) {c : Char} (hc : c.isDigit = true) (t : Text) :
    value? (fuel + 1) (c :: t) = number? false (c :: t) := by
  have hne : ∀ d : Char, d.isDigit = false → c ≠ d := by
    rintro d hd rfl
    rw [hc] at hd
    cases hd
  rw [value?, if_neg (hne _ (by decide)), if_neg (hne _ (by decide)), if_neg (hne _ (by decide)),
    if_neg (hne _ (by decide)), if_pos hc]

theorem value?_array (fuel : Nat) {t : Text} (h : Begins t) : value? (fuel + 1) ('[' :: t) =
    (items? fuel t).map fun (items, rest) => (.array items, rest) := by
  rw [value?, if_neg (by decide), if_pos rfl, h.skipSpace]
  obtain ⟨c, t, rfl, -, hc⟩ := h
  split
  · rename_i heq
    cases heq
    exact absurd rfl hc
  · rfl

theorem value?_object (fuel : Nat) (t : Text) : value? (fuel + 1) ('\x7b' :: '"' :: t) =
    (members? fuel ('"' :: t)).map fun (members, rest) => (.object members, rest) := rfl

theorem items?_comma {fuel : Nat} {t rest : Text} {v : Json}
    (h : value? fuel t = some (v, ',' :: rest)) (hrest : Begins rest) :
    items? (fuel + 1) t = (items? fuel rest).map fun (items, rest) => (v :: items, rest) := by
  have hcomma : skipSpace (',' :: rest) = ',' :: rest := rfl
  rw [items?, h]
  simp only [Option.bind_eq_bind, Option.bind_some, hcomma, hrest.skipSpace]
  cases items? fuel rest <;> rfl

theorem items?_close {fuel : Nat} {t rest : Text} {v : Json}
    (h : value? fuel t = some (v, ']' :: rest)) : items? (fuel + 1) t = some ([v], rest) := by
  rw [items?, h]
  rfl

theorem members?_comma {fuel : Nat} {name t rest : Text} {v : Json} (ht : Begins t)
    (h : value? fuel t = some (v, ',' :: rest)) (hrest : Begins rest) :
    members? (fuel + 1) (writeString name ++ ':' :: t) =
      (members? fuel rest).map fun (members, rest) => ((name, v) :: members, rest) := by
  have hcolon : skipSpace (':' :: t) = ':' :: t := rfl
  have hcomma : skipSpace (',' :: rest) = ',' :: rest := rfl
  rw [writeString_append, members?]
  simp only [stringTail?_writeString, Option.bind_eq_bind, Option.bind_some, hcolon, ht.skipSpace,
    h, hcomma, hrest.skipSpace]
  cases members? fuel rest <;> rfl

theorem members?_close {fuel : Nat} {name t rest : Text} {v : Json} (ht : Begins t)
    (h : value? fuel t = some (v, '\x7d' :: rest)) :
    members? (fuel + 1) (writeString name ++ ':' :: t) = some ([(name, v)], rest) := by
  have hcolon : skipSpace (':' :: t) = ':' :: t := rfl
  have hclose : skipSpace ('\x7d' :: rest) = '\x7d' :: rest := rfl
  rw [writeString_append, members?]
  simp only [stringTail?_writeString, Option.bind_eq_bind, Option.bind_some, hcolon, ht.skipSpace,
    h, hclose]
  rfl

/-! ### All of a value -/

theorem Ends.comma (t : Text) : Ends (',' :: t) := by
  rintro c ⟨⟩
  exact Or.inl rfl

theorem Ends.bracket (t : Text) : Ends (']' :: t) := by
  rintro c ⟨⟩
  exact Or.inr (Or.inl rfl)

theorem Ends.brace (t : Text) : Ends ('\x7d' :: t) := by
  rintro c ⟨⟩
  exact Or.inr (Or.inr rfl)

/-- What is written is read back with this fuel, if the fuel is enough. -/
structure Reads (fuel : Nat) : Prop where
  value : ∀ v rest, Legible v → Ends rest → v.write.length ≤ fuel →
    value? fuel (v.write ++ rest) = some (v, rest)
  items : ∀ v vs rest, LegibleItems (v :: vs) → (writeItems (v :: vs)).length < fuel →
    items? fuel (writeItems (v :: vs) ++ ']' :: rest) = some (v :: vs, rest)
  members : ∀ m ms rest, LegibleMembers (m :: ms) → (writeMembers (m :: ms)).length < fuel →
    members? fuel (writeMembers (m :: ms) ++ '\x7d' :: rest) = some (m :: ms, rest)

theorem Reads.value_succ {fuel : Nat} (h : Reads fuel) (v : Json) (rest : Text)
    (hv : Legible v) (hrest : Ends rest) (hfuel : v.write.length ≤ fuel + 1) :
    value? (fuel + 1) (v.write ++ rest) = some (v, rest) := by
  cases v with
  | null => rfl
  | bool b => cases b <;> rfl
  | real t => exact absurd hv id
  | string t =>
    rw [write, writeString_append, value?, if_pos rfl, stringTail?_writeString]
    rfl
  | int n =>
    simp only [Legible] at hv
    rw [write, Text.ofInt]
    split
    · rename_i hn
      have hvalue : n = if true then -(n.natAbs : Int) else n.natAbs := by
        rw [if_pos rfl]
        omega
      rw [List.cons_append, value?, if_neg (by decide), if_neg (by decide), if_neg (by decide),
        if_pos rfl, number?_ofNat hvalue hv (fun _ => by omega) hrest]
    · rename_i hn
      have hvalue : n = if false then -(n.natAbs : Int) else n.natAbs := by
        rw [if_neg (by decide)]
        omega
      have hnumber := number?_ofNat hvalue hv nofun hrest
      obtain ⟨c, t, ht, hc⟩ := exists_cons_ofNat n.natAbs
      rw [ht, List.cons_append] at hnumber ⊢
      rw [value?_digit fuel hc, hnumber]
  | array items =>
    cases items with
    | nil => rfl
    | cons v vs =>
      have hbegins := (begins_writeItems vs hv.1).append (']' :: rest)
      simp only [write, List.cons_append, List.append_assoc, List.nil_append] at hfuel ⊢
      rw [value?_array fuel hbegins, h.items v vs rest hv]
      · rfl
      · simp only [List.length_cons, List.length_append] at hfuel
        omega
  | object members =>
    cases members with
    | nil => rfl
    | cons m ms =>
      simp only [write, List.cons_append, List.append_assoc, List.nil_append] at hfuel ⊢
      have hmembers := h.members m ms rest hv (by
        simp only [List.length_cons, List.length_append] at hfuel
        omega)
      obtain ⟨t, ht⟩ : ∃ t, writeMembers (m :: ms) = '"' :: t := by
        cases ms <;> exact ⟨_, rfl⟩
      rw [ht, List.cons_append] at hmembers ⊢
      rw [value?_object, hmembers]
      rfl

theorem Reads.items_succ {fuel : Nat} (h : Reads fuel) (v : Json) (vs : List Json) (rest : Text)
    (hvs : LegibleItems (v :: vs)) (hfuel : (writeItems (v :: vs)).length < fuel + 1) :
    items? (fuel + 1) (writeItems (v :: vs) ++ ']' :: rest) = some (v :: vs, rest) := by
  obtain ⟨hv, hvs⟩ := hvs
  cases vs with
  | nil => exact items?_close (h.value v _ hv (.bracket rest) (Nat.lt_succ_iff.mp hfuel))
  | cons w vs =>
    simp only [writeItems, List.append_assoc, List.cons_append, List.length_append,
      List.length_cons] at hfuel ⊢
    have hvalue := h.value v (',' :: (writeItems (w :: vs) ++ ']' :: rest)) hv (.comma _) (by omega)
    rw [items?_comma hvalue ((begins_writeItems vs hvs.1).append _),
      h.items w vs rest hvs (by omega)]
    rfl

theorem Reads.members_succ {fuel : Nat} (h : Reads fuel) (m : Text × Json)
    (ms : List (Text × Json)) (rest : Text) (hms : LegibleMembers (m :: ms))
    (hfuel : (writeMembers (m :: ms)).length < fuel + 1) :
    members? (fuel + 1) (writeMembers (m :: ms) ++ '\x7d' :: rest) = some (m :: ms, rest) := by
  obtain ⟨name, v⟩ := m
  obtain ⟨hv, hms⟩ := hms
  cases ms with
  | nil =>
    simp only [writeMembers, List.append_assoc, List.cons_append, List.length_append,
      List.length_cons] at hfuel ⊢
    have hvalue := h.value v ('\x7d' :: rest) hv (.brace rest) (by omega)
    exact members?_close ((begins_write hv).append _) hvalue
  | cons m ms =>
    have hwrite : writeMembers ((name, v) :: m :: ms) =
        writeString name ++ ':' :: (v.write ++ ',' :: writeMembers (m :: ms)) := by
      simp [writeMembers]
    have hbegins : Begins (writeMembers (m :: ms)) := by
      cases ms <;> exact ⟨'"', _, rfl, rfl, by decide⟩
    rw [hwrite] at hfuel ⊢
    simp only [List.append_assoc, List.cons_append, List.length_append, List.length_cons]
      at hfuel ⊢
    have hvalue := h.value v (',' :: (writeMembers (m :: ms) ++ '\x7d' :: rest)) hv (.comma _)
      (by omega)
    rw [members?_comma ((begins_write hv).append _) hvalue (hbegins.append _),
      h.members m ms rest hms (by omega)]
    rfl

theorem reads (fuel : Nat) : Reads fuel := by
  induction fuel with
  | zero =>
    refine ⟨fun v rest hv _ hfuel => ?_, fun _ _ _ _ hfuel => absurd hfuel (Nat.not_lt_zero _),
      fun _ _ _ _ hfuel => absurd hfuel (Nat.not_lt_zero _)⟩
    obtain ⟨c, t, ht, -⟩ := begins_write hv
    rw [ht] at hfuel
    exact absurd hfuel (Nat.not_succ_le_zero _)
  | succ fuel ih => exact ⟨ih.value_succ, ih.items_succ, ih.members_succ⟩

/-- A value is read back from what is written of it. -/
theorem read?_write {v : Json} (h : v.Legible) : read? v.write = some v := by
  have hvalue := (reads (v.write.length + 1)).value v [] h nofun (Nat.le_succ _)
  rw [List.append_nil] at hvalue
  rw [read?, (begins_write h).skipSpace, hvalue]
  rfl

/-! ## Lines -/

theorem not_mem_ofInt (n : Int) : '\n' ∉ Text.ofInt n := by
  have hdigits : ∀ m : Nat, '\n' ∉ Text.ofNat m := fun m hmem =>
    absurd (isDigit_of_mem_ofNat hmem) (by decide)
  rw [Text.ofInt]
  split
  · simp [hdigits]
  · exact hdigits _

mutual

/-- No value is written with a line feed. -/
theorem not_mem_write : ∀ {v : Json}, v.Legible → '\n' ∉ v.write
  | .null, _ => by decide
  | .bool b, _ => by cases b <;> decide
  | .int n, _ => not_mem_ofInt n
  | .string t, _ => not_mem_writeString t
  | .array items, h => by
    have hitems : '\n' ∉ writeItems items := not_mem_writeItems h
    simp [write, hitems]
  | .object members, h => by
    have hmembers : '\n' ∉ writeMembers members := not_mem_writeMembers h
    simp [write, hmembers]

theorem not_mem_writeItems : ∀ {vs : List Json}, LegibleItems vs → '\n' ∉ writeItems vs
  | [], _ => by simp [writeItems]
  | [v], h => not_mem_write h.1
  | v :: w :: vs, h => by
    have hv := not_mem_write h.1
    have hvs := not_mem_writeItems h.2
    simp [writeItems, hv, hvs]

theorem not_mem_writeMembers : ∀ {ms : List (Text × Json)}, LegibleMembers ms →
    '\n' ∉ writeMembers ms
  | [], _ => by simp [writeMembers]
  | [(name, v)], h => by
    have hname := not_mem_writeString name
    have hv := not_mem_write h.1
    simp [writeMembers, hname, hv]
  | (name, v) :: m :: ms, h => by
    have hname := not_mem_writeString name
    have hv := not_mem_write h.1
    have hms := not_mem_writeMembers h.2
    simp [writeMembers, hname, hv, hms]

end

end StyleBatch.Json
