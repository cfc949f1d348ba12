import Mathlib.Data.List.Perm.Basic
import StyleBatch.Load

/-!
# Texts with holes

A text in which imports are being inlined, as a tree: its own text, holes that wait for a key,
places that were cleared, and places that were filled with the text of a location, which is
such a tree again.  A hole is spelled as the placeholder of its key.

* `Key.cut?_spell`: the first placeholder of a key is its first hole, if texts have no bar and no
  mark.
* `Pieces.substitute_render`: so substituting in the text is putting something in the tree.
-/

namespace StyleBatch

/-- Neither the mark of placeholders nor the bar of keys is in the text. -/
def Text.Clean (t : Text) : Prop :=
  '\x00' ∉ t ∧ Key.separator ∉ t

instance (t : Text) : Decidable (Text.Clean t) :=
  inferInstanceAs (Decidable (_ ∧ _))

/-! ## Rows of texts and holes -/

/-- A text, or a hole that waits for a key. -/
inductive Token where
  | text (t : Text)
  | hole (k : Key)
deriving DecidableEq

namespace Token

def spell : Token → Text
  | text t => t
  | hole k => k.placeholder

/-- Texts are clean, keys have a bar and no mark. -/
def Neat : Token → Prop
  | text t => Text.Clean t
  | hole k => '\x00' ∉ k.text ∧ Key.separator ∈ k.text

end Token

namespace Text

theorem isPrefixOf_iff {mark t : Text} : mark.isPrefixOf t = true ↔ mark <+: t :=
  List.isPrefixOf_iff_prefix

theorem cut?_cons_of_not_isPrefix {mark t : Text} {c : Char} (h : ¬mark <+: c :: t) :
    cut? mark (c :: t) = (cut? mark t).map fun (before, after) => (c :: before, after) := by
  rw [cut?, if_neg fun hmark => h (isPrefixOf_iff.mp hmark)]

/-- A mark is not found where its first character is not. -/
theorem cut?_append {c : Char} {mark s : Text} (h : c ∉ s) (t : Text) :
    cut? (c :: mark) (s ++ t) =
      (cut? (c :: mark) t).map fun (before, after) => (s ++ before, after) := by
  induction s with
  | nil => simp
  | cons d s ih =>
    simp only [List.mem_cons, not_or] at h
    have hnot : ¬c :: mark <+: d :: (s ++ t) := fun hmark => h.1 (List.cons_prefix_cons.mp hmark).1
    rw [List.cons_append, cut?_cons_of_not_isPrefix hnot, ih h.2, Option.map_map]
    rfl

theorem cut?_self (c : Char) (mark t : Text) : cut? (c :: mark) (c :: mark ++ t) = some ([], t) := by
  have hmark : (c :: mark).isPrefixOf (c :: (mark ++ t)) = true :=
    isPrefixOf_iff.mpr ⟨t, rfl⟩
  rw [List.cons_append, cut?, if_pos hmark, List.length_cons, List.drop_succ_cons, List.drop_left]

/-- What stands before the first `c` is all of it. -/
theorem eq_of_isPrefix {c : Char} {s s' t : Text} (h : c ∉ s) (h' : c ∉ s')
    (hstarts : s ++ [c] <+: s' ++ c :: t) : s = s' := by
  induction s generalizing s' with
  | nil =>
    cases s' with
    | nil => rfl
    | cons d s' =>
      have hd := (List.cons_prefix_cons.mp hstarts).1
      exact absurd (hd ▸ List.mem_cons_self) h'
  | cons d s ih =>
    cases s' with
    | nil =>
      have hd := (List.cons_prefix_cons.mp hstarts).1
      exact absurd (hd ▸ List.mem_cons_self) h
    | cons d' s' =>
      obtain ⟨rfl, htail⟩ := List.cons_prefix_cons.mp hstarts
      rw [ih (fun hmem => h (List.mem_cons_of_mem _ hmem))
        (fun hmem => h' (List.mem_cons_of_mem _ hmem)) htail]

end Text

namespace Token

/-- No text with a bar stands before the next mark of `t`. -/
def Guarded (t : Text) : Prop :=
  ∀ k : Text, Key.separator ∈ k → '\x00' ∉ k → ¬k ++ ['\x00'] <+: t

theorem Guarded.append {s t : Text} (h : Guarded t) (hs : Key.separator ∉ s) : Guarded (s ++ t) := by
  induction s with
  | nil => exact h
  | cons c s ih =>
    simp only [List.mem_cons, not_or] at hs
    intro k hbar hmark hstarts
    cases k with
    | nil => cases hbar
    | cons d k =>
      obtain ⟨rfl, htail⟩ := List.cons_prefix_cons.mp hstarts
      have hbar' : Key.separator ∈ k := (List.mem_cons.mp hbar).resolve_left hs.1
      exact ih hs.2 k hbar' (fun hmem => hmark (List.mem_cons_of_mem _ hmem)) htail

/-- After a mark that ends a key comes a mark that begins one, or the end: between them there is
no bar. -/
theorem guarded_spell {tokens : List Token} (h : ∀ token ∈ tokens, token.Neat) :
    Guarded (tokens.flatMap spell) := by
  induction tokens with
  | nil =>
    intro k _ _ hstarts
    simp at hstarts
  | cons token tokens ih =>
    have hrest := ih fun t ht => h t (List.mem_cons_of_mem _ ht)
    rw [List.flatMap_cons]
    cases token with
    | text t => exact hrest.append (h _ List.mem_cons_self).2
    | hole k =>
      intro k' hbar hmark hstarts
      cases k' with
      | nil => cases hbar
      | cons c k' =>
        have hc := (List.cons_prefix_cons.mp hstarts).1
        exact hmark (hc ▸ List.mem_cons_self)

end Token

/-- The first placeholder of a key is its first hole. -/
theorem Key.cut?_spell {k : Key} {before after : List Token}
    (h : ∀ token ∈ before ++ .hole k :: after, token.Neat) (hfirst : .hole k ∉ before) :
    Text.cut? k.placeholder ((before ++ .hole k :: after).flatMap Token.spell) =
      some (before.flatMap Token.spell, after.flatMap Token.spell) := by
  induction before with
  | nil => exact Text.cut?_self _ _ _
  | cons token before ih =>
    simp only [List.mem_cons, not_or] at hfirst
    have hrest : ∀ token ∈ before ++ .hole k :: after, token.Neat :=
      fun t ht => h t (List.mem_cons_of_mem _ ht)
    have htoken := h token List.mem_cons_self
    have hk : (Token.hole k).Neat := h _ (by simp)
    rw [List.cons_append, List.flatMap_cons, List.flatMap_cons]
    cases token with
    | text t =>
      rw [Token.spell, placeholder, List.cons_append, Text.cut?_append htoken.1,
        ← List.cons_append, ← placeholder, ih hrest hfirst.2]
      rfl
    | hole k' =>
      have hne : k.text ≠ k'.text := by
        intro heq
        exact hfirst.1 (by rw [show k = k' by cases k; cases k'; simp_all])
      have hguarded := Token.guarded_spell hrest
      generalize (before ++ .hole k :: after).flatMap Token.spell = t at ih hguarded ⊢
      -- Not at the first mark, for the keys are different, nor at the second one.
      have hfront : ¬k.placeholder <+: '\x00' :: (k'.text ++ '\x00' :: t) := by
        intro hstarts
        obtain ⟨-, htail⟩ := List.cons_prefix_cons.mp hstarts
        exact hne (Text.eq_of_isPrefix hk.1 htoken.1 htail)
      have hback : ¬k.placeholder <+: '\x00' :: t := by
        intro hstarts
        obtain ⟨-, htail⟩ := List.cons_prefix_cons.mp hstarts
        exact hguarded k.text hk.2 hk.1 htail
      have hspell : (Token.hole k').spell ++ t = '\x00' :: (k'.text ++ '\x00' :: t) := by
        simp [Token.spell, placeholder]
      rw [hspell, Text.cut?_cons_of_not_isPrefix hfront, placeholder, List.cons_append,
        Text.cut?_append htoken.1, ← List.cons_append, ← placeholder,
        Text.cut?_cons_of_not_isPrefix hback, ih hrest hfirst.2]
      simp [Token.spell, placeholder]

/-! ## Trees -/

/-- A text in which imports are being inlined. -/
inductive Pieces where
  | nil
  | text (t : Text) (rest : Pieces)
  | hole (k : Key) (rest : Pieces)
  | cleared (rest : Pieces)
  /-- The text of a location, with what has been put in it. -/
  | filled (l : Location) (inner rest : Pieces)

namespace Pieces

def tokens : Pieces → List Token
  | nil => []
  | text t rest => .text t :: rest.tokens
  | hole k rest => .hole k :: rest.tokens
  | cleared rest => rest.tokens
  | filled _ inner rest => inner.tokens ++ rest.tokens

def render (p : Pieces) : Text :=
  p.tokens.flatMap Token.spell

/-- The locations whose texts have been put in, in the order of their places. -/
def places : Pieces → List Location
  | nil => []
  | text _ rest => rest.places
  | hole _ rest => rest.places
  | cleared rest => rest.places
  | filled l inner rest => l :: (inner.places ++ rest.places)

/-- All texts and keys are neat. -/
def Neat (p : Pieces) : Prop :=
  ∀ token ∈ p.tokens, token.Neat

/-- `put` puts `f` in the place of the first hole of a key; `f` takes what comes after the hole. -/
def put (k : Key) (f : Pieces → Pieces) : Pieces → Option Pieces
  | nil => none
  | text t rest => (rest.put k f).map (text t)
  | hole k' rest => if k' = k then some (f rest) else (rest.put k f).map (hole k')
  | cleared rest => (rest.put k f).map cleared
  | filled l inner rest =>
    match inner.put k f with
    | some inner' => some (filled l inner' rest)
    | none => (rest.put k f).map (filled l inner)

variable {k : Key} {f : Pieces → Pieces} {p p' : Pieces}

theorem hole_not_mem_of_put (h : p.put k f = none) : .hole k ∉ p.tokens := by
  induction p with
  | nil => exact List.not_mem_nil
  | text t rest ih =>
    rw [put, Option.map_eq_none_iff] at h
    simpa [tokens] using ih h
  | hole k' rest ih =>
    rw [put] at h
    split at h
    · cases h
    · rename_i hne
      rw [Option.map_eq_none_iff] at h
      simpa [tokens, Ne.symm hne] using ih h
  | cleared rest ih =>
    rw [put, Option.map_eq_none_iff] at h
    exact ih h
  | filled l inner rest ihinner ihrest =>
    rw [put] at h
    split at h
    · cases h
    · rename_i hinner
      rw [Option.map_eq_none_iff] at h
      rw [tokens, List.mem_append, not_or]
      exact ⟨ihinner hinner, ihrest h⟩

/-- What `put` does to the tokens. -/
theorem tokens_put {extra : List Token} (hf : ∀ rest, (f rest).tokens = extra ++ rest.tokens)
    (h : p.put k f = some p') : ∃ before after, p.tokens = before ++ .hole k :: after ∧
      .hole k ∉ before ∧ p'.tokens = before ++ (extra ++ after) := by
  induction p generalizing p' with
  | nil => cases h
  | text t rest ih =>
    obtain ⟨rest', hrest, rfl⟩ := Option.map_eq_some_iff.mp h
    obtain ⟨before, after, htokens, hfirst, htokens'⟩ := ih hrest
    refine ⟨.text t :: before, after, ?_, by simpa using hfirst, ?_⟩
    · rw [tokens, htokens, List.cons_append]
    · rw [tokens, htokens', List.cons_append]
  | hole k' rest ih =>
    rw [put] at h
    split at h
    · rename_i heq
      cases h
      exact ⟨[], rest.tokens, by rw [tokens, heq, List.nil_append], List.not_mem_nil, hf rest⟩
    · rename_i hne
      obtain ⟨rest', hrest, rfl⟩ := Option.map_eq_some_iff.mp h
      obtain ⟨before, after, htokens, hfirst, htokens'⟩ := ih hrest
      refine ⟨.hole k' :: before, after, ?_, by simpa [Ne.symm hne] using hfirst, ?_⟩
      · rw [tokens, htokens, List.cons_append]
      · rw [tokens, htokens', List.cons_append]
  | cleared rest ih =>
    obtain ⟨rest', hrest, rfl⟩ := Option.map_eq_some_iff.mp h
    obtain ⟨before, after, htokens⟩ := ih hrest
    exact ⟨before, after, htokens⟩
  | filled l inner rest ihinner ihrest =>
    rw [put] at h
    split at h
    · rename_i inner' hinner
      cases h
      obtain ⟨before, after, htokens, hfirst, htokens'⟩ := ihinner hinner
      refine ⟨before, after ++ rest.tokens, ?_, hfirst, ?_⟩
      · rw [tokens, htokens, List.append_assoc, List.cons_append]
      · rw [tokens, htokens', List.append_assoc, List.append_assoc]
    · rename_i hinner
      obtain ⟨rest', hrest, rfl⟩ := Option.map_eq_some_iff.mp h
      obtain ⟨before, after, htokens, hfirst, htokens'⟩ := ihrest hrest
      refine ⟨inner.tokens ++ before, after, ?_, ?_, ?_⟩
      · rw [tokens, htokens, List.append_assoc]
      · rw [List.mem_append, not_or]
        exact ⟨hole_not_mem_of_put hinner, hfirst⟩
      · rw [tokens, htokens', List.append_assoc]

/-- Substituting in the text is putting in the tree. -/
theorem substitute_render {extra : List Token}
    (hf : ∀ rest, (f rest).tokens = extra ++ rest.tokens) (h : p.put k f = some p')
    (hneat : p.Neat) : k.substitute (extra.flatMap Token.spell) p.render = p'.render := by
  obtain ⟨before, after, htokens, hfirst, htokens'⟩ := tokens_put hf h
  rw [Neat, htokens] at hneat
  rw [Key.substitute, Key.substitute?, render, htokens, Key.cut?_spell hneat hfirst, Option.map_some,
    Option.getD_some, render, htokens']
  simp [List.flatMap_append]

theorem Neat.put {extra : List Token} (hf : ∀ rest, (f rest).tokens = extra ++ rest.tokens)
    (h : p.put k f = some p') (hneat : p.Neat) (hextra : ∀ token ∈ extra, token.Neat) :
    p'.Neat := by
  obtain ⟨before, after, htokens, -, htokens'⟩ := tokens_put hf h
  rw [Neat, htokens] at hneat
  intro token htoken
  rw [htokens', List.mem_append, List.mem_append] at htoken
  rcases htoken with htoken | htoken | htoken
  · exact hneat token (by simp [htoken])
  · exact hextra token htoken
  · exact hneat token (by simp [htoken])

/-- A hole of the key goes, and those that are put in come. -/
theorem count_put {extra : List Token} (hf : ∀ rest, (f rest).tokens = extra ++ rest.tokens)
    (h : p.put k f = some p') (k' : Key) :
    p'.tokens.count (.hole k') + (if k = k' then 1 else 0) =
      p.tokens.count (.hole k') + extra.count (.hole k') := by
  obtain ⟨before, after, htokens, -, htokens'⟩ := tokens_put hf h
  rw [htokens, htokens', List.count_append, List.count_append, List.count_append, List.count_cons]
  by_cases heq : k = k'
  · simp only [heq, beq_self_eq_true, if_true]
    omega
  · have hne : (Token.hole k == Token.hole k') = false := by simpa using heq
    simp only [hne, heq, if_false, Bool.false_eq_true]
    omega

theorem count_places_put {extra : List Location}
    (hf : ∀ rest, (f rest).places = extra ++ rest.places) (h : p.put k f = some p')
    (l : Location) : p'.places.count l = extra.count l + p.places.count l := by
  induction p generalizing p' with
  | nil => cases h
  | text t rest ih =>
    obtain ⟨rest', hrest, rfl⟩ := Option.map_eq_some_iff.mp h
    have hcount := ih hrest
    exact hcount
  | hole k' rest ih =>
    rw [put] at h
    split at h
    · cases h
      rw [hf, List.count_append, places]
    · obtain ⟨rest', hrest, rfl⟩ := Option.map_eq_some_iff.mp h
      have hcount := ih hrest
      exact hcount
  | cleared rest ih =>
    obtain ⟨rest', hrest, rfl⟩ := Option.map_eq_some_iff.mp h
    have hcount := ih hrest
    exact hcount
  | filled l' inner rest ihinner ihrest =>
    rw [put] at h
    split at h
    · rename_i inner' hinner
      cases h
      have hcount := ihinner hinner
      simp only [places, List.count_cons, List.count_append]
      omega
    · obtain ⟨rest', hrest, rfl⟩ := Option.map_eq_some_iff.mp h
      have hcount := ihrest hrest
      simp only [places, List.count_cons, List.count_append]
      omega

end Pieces

end StyleBatch
