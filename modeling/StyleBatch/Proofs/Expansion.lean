import Mathlib.Data.List.Nodup
import StyleBatch.Proofs.Pieces
import StyleBatch.Proofs.Way
import StyleBatch.Proofs.Weave

/-!
# Expanding chosen directives

Loads that share a cache share the text of a location as well: it is put in the place of one
directive, and all others that lead to the location become empty.  `Library.expand` is the text of
a load or location for a choice of directives, with the locations that were put in.

A tree that is being inlined is `Grown` from its source, directive by directive.
`Library.exists_choice`: trees without holes, in which no location is put in twice, give a choice,
and expanding by it gives their texts.
-/

namespace StyleBatch

open Resolution

/-- What has a source. -/
inductive Site where
  | load (n : Nat)
  | location (l : Location)
deriving DecidableEq

namespace Library

variable (lib : Library) (loads : List Load)

/-- The address and the source of a site. -/
def source? : Site → Option (Text × Text)
  | .load n => loads[n]?.map fun load => (load.address, load.text)
  | .location l =>
    match lib.fetch l with
    | .ok raw => some (l.text, raw)
    | .error _ => none

/-- The directive with this number leads from the site to the location. -/
def Occurs (s : Site) (j : Nat) (l : Location) : Prop :=
  ∃ address source is i, lib.source? loads s = some (address, source) ∧
    lib.imports address source = .ok is ∧ is[j]? = some i ∧ lib.find (lib.base address) i.file = .ok l

/-- The source of a site with the chosen directives expanded and the others left empty, and the
locations whose texts were put in. -/
def expand (chosen : Site → Nat → Bool) (s : Site) : Option (Text × List Location) := do
  let (address, source) ← lib.source? loads s
  let is ← (lib.imports address source).toOption
  let parts ← is.zipIdx.mapM fun (i, j) => do
    if chosen s j then
      let l ← (lib.find (lib.base address) i.file).toOption
      let (text, below) ← by -- as in `Library.inline`
        apply expand
        · exact chosen
        · exact .location l
      return (text, l :: below)
    else return ([], [])
  return (fill source (Directive.scan source) (parts.map Prod.fst), (parts.map Prod.snd).flatten)
partial_fixpoint

/-- The part of a directive. -/
def expandPart (chosen : Site → Nat → Bool) (s : Site) (base : Text) (i : Import) (j : Nat) :
    Option (Text × List Location) := do
  if chosen s j then
    let l ← (lib.find base i.file).toOption
    let (text, below) ← lib.expand loads chosen (.location l)
    return (text, l :: below)
  else return ([], [])

variable {lib loads}

/-- A site is expanded when its directives are. -/
theorem expand_eq_some {chosen : Site → Nat → Bool} {s : Site} {address source : Text}
    {is : List Import} {parts : List (Text × List Location)}
    (hsource : lib.source? loads s = some (address, source))
    (himports : lib.imports address source = .ok is)
    (hparts : (is.zipIdx.mapM fun x => lib.expandPart loads chosen s (lib.base address) x.1 x.2) =
      some parts) :
    lib.expand loads chosen s = some (fill source (Directive.scan source) (parts.map Prod.fst),
      (parts.map Prod.snd).flatten) := by
  rw [expand, hsource]
  simp only [Option.bind_eq_bind, Option.bind_some, himports, Except.toOption]
  simp only [expandPart, Option.bind_eq_bind, Except.toOption] at hparts
  rw [hparts]
  rfl

/-! ## Growing -/

variable (lib) in
/-- A tree that has come about from the lexemes of a source and its imports. -/
inductive Grown : List Lexeme → List Import → Pieces → Prop
  | nil : Grown [] [] .nil
  | plain {t : Text} {ls : List Lexeme} {is : List Import} {p : Pieces} :
      Grown ls is p → Grown (.plain t :: ls) is (.text t p)
  | hole {filler specifier : Text} {quote : Char} {i : Import} {ls : List Lexeme}
      {is : List Import} {p : Pieces} : i.Formed → Grown ls is p →
      Grown (.directive filler quote specifier :: ls) (i :: is) (.hole i.key p)
  | cleared {filler specifier : Text} {quote : Char} {i : Import} {ls : List Lexeme}
      {is : List Import} {p : Pieces} : Grown ls is p →
      Grown (.directive filler quote specifier :: ls) (i :: is) (.cleared p)
  | filled {filler specifier raw : Text} {quote : Char} {i : Import} {l : Location}
      {ls : List Lexeme} {is is' : List Import} {inner p : Pieces} :
      lib.find i.key.base i.file = .ok l → Key.separator ∉ lib.base l.text →
      lib.fetch l = .ok raw → lib.imports l.text raw = .ok is' →
      Grown (Directive.parts raw) is' inner → Grown ls is p →
      Grown (.directive filler quote specifier :: ls) (i :: is) (.filled l inner p)

/-- The tree of a source in which nothing has been put. -/
def seed : List Lexeme → List Import → Pieces
  | [], _ => .nil
  | .plain t :: ls, is => .text t (seed ls is)
  | .directive .. :: ls, [] => seed ls []
  | .directive .. :: ls, i :: is => .hole i.key (seed ls is)

section Seed

theorem spell_seed (ls : List Lexeme) (is : List Import) :
    (seed ls is).render = Lexeme.weave ls (is.map fun i => i.key.placeholder) := by
  fun_induction seed ls is with
  | case1 => rfl
  | case2 t ls is ih => rw [Lexeme.weave, ← ih]; rfl
  | case3 _ _ _ ls ih => rw [List.map_nil, Lexeme.weave]; exact ih
  | case4 _ _ _ ls i is ih => rw [List.map_cons, Lexeme.weave, ← ih]; rfl

theorem places_seed (ls : List Lexeme) (is : List Import) : (seed ls is).places = [] := by
  fun_induction seed ls is <;> first | rfl | assumption

theorem count_seed {ls : List Lexeme} {is : List Import} {offset : Nat}
    (h : is.length = (Lexeme.directives offset ls).length) (k : Key) :
    (seed ls is).tokens.count (.hole k) = (is.map Import.key).count k := by
  fun_induction seed ls is generalizing offset with
  | case1 is =>
    rw [Lexeme.directives, List.length_nil, List.length_eq_zero_iff] at h
    rw [h]
    rfl
  | case2 t ls is ih =>
    rw [Pieces.tokens, List.count_cons, ih h]
    simp
  | case3 => simp [Lexeme.directives] at h
  | case4 filler quote specifier ls i is ih =>
    rw [Lexeme.directives, List.length_cons, List.length_cons, Nat.add_right_cancel_iff] at h
    rw [Pieces.tokens, List.count_cons, ih h, List.map_cons, List.count_cons]
    simp

theorem neat_seed {ls : List Lexeme} {is : List Import}
    (hls : ∀ t, .plain t ∈ ls → (Token.text t).Neat) (his : ∀ i ∈ is, (Token.hole i.key).Neat) :
    (seed ls is).Neat := by
  fun_induction seed ls is with
  | case1 => exact fun _ h => nomatch h
  | case2 t ls is ih =>
    intro token htoken
    rcases List.mem_cons.mp htoken with rfl | htoken
    · exact hls t List.mem_cons_self
    · exact ih (fun t ht => hls t (List.mem_cons_of_mem _ ht)) his token htoken
  | case3 _ _ _ ls ih => exact ih (fun t ht => hls t (List.mem_cons_of_mem _ ht)) his
  | case4 _ _ _ ls i is ih =>
    intro token htoken
    rcases List.mem_cons.mp htoken with rfl | htoken
    · exact his i List.mem_cons_self
    · exact ih (fun t ht => hls t (List.mem_cons_of_mem _ ht))
        (fun i hi => his i (List.mem_cons_of_mem _ hi)) token htoken

theorem grown_seed {ls : List Lexeme} {is : List Import} {offset : Nat}
    (h : is.length = (Lexeme.directives offset ls).length) (his : ∀ i ∈ is, i.Formed) :
    Grown lib ls is (seed ls is) := by
  fun_induction seed ls is generalizing offset with
  | case1 is =>
    rw [Lexeme.directives, List.length_nil, List.length_eq_zero_iff] at h
    rw [h]
    exact .nil
  | case2 t ls is ih => exact .plain (ih h his)
  | case3 => simp [Lexeme.directives] at h
  | case4 filler quote specifier ls i is ih =>
    rw [Lexeme.directives, List.length_cons, List.length_cons, Nat.add_right_cancel_iff] at h
    exact .hole (his i List.mem_cons_self) (ih h fun i hi => his i (List.mem_cons_of_mem _ hi))

end Seed

/-- What is put in the place of a hole grows, if it grows wherever there is such a hole. -/
theorem Grown.put {k : Key} {f : Pieces → Pieces} (hf : ∀ {filler specifier : Text} {quote : Char}
      {i : Import} {ls : List Lexeme} {is : List Import} {p : Pieces}, i.Formed → i.key = k →
      Grown lib ls is p → Grown lib (.directive filler quote specifier :: ls) (i :: is) (f p))
    {ls : List Lexeme} {is : List Import} {p p' : Pieces} (h : Grown lib ls is p)
    (hput : p.put k f = some p') : Grown lib ls is p' := by
  induction h generalizing p' with
  | nil => cases hput
  | plain _ ih =>
    obtain ⟨rest, hrest, rfl⟩ := Option.map_eq_some_iff.mp hput
    exact .plain (ih hrest)
  | hole hformed hp ih =>
    rw [Pieces.put] at hput
    split at hput
    · rename_i hkey
      cases hput
      exact hf hformed hkey hp
    · obtain ⟨rest, hrest, rfl⟩ := Option.map_eq_some_iff.mp hput
      exact .hole hformed (ih hrest)
  | cleared _ ih =>
    obtain ⟨rest, hrest, rfl⟩ := Option.map_eq_some_iff.mp hput
    exact .cleared (ih hrest)
  | filled hfind hbase hfetch himports hinner hp ihinner ih =>
    rw [Pieces.put] at hput
    split at hput
    · rename_i inner' hinner'
      cases hput
      exact .filled hfind hbase hfetch himports (ihinner hinner') hp
    · obtain ⟨rest, hrest, rfl⟩ := Option.map_eq_some_iff.mp hput
      exact .filled hfind hbase hfetch himports hinner (ih hrest)

end Library

/-! ## The directives of a tree -/

namespace Pieces

/-- Every directive of a tree with its site and number, and the location that was put there. -/
def marks : Pieces → Site → Nat → List ((Site × Nat) × Option Location)
  | nil, _, _ => []
  | text _ rest, s, j => rest.marks s j
  | hole _ rest, s, j => ((s, j), none) :: rest.marks s (j + 1)
  | cleared rest, s, j => ((s, j), none) :: rest.marks s (j + 1)
  | filled l inner rest, s, j =>
    ((s, j), some l) :: (inner.marks (.location l) 0 ++ rest.marks s (j + 1))

/-- The text that stands in the place of every directive, and the locations that are in it. -/
def parts : Pieces → List (Text × List Location)
  | nil => []
  | text _ rest => rest.parts
  | hole k rest => (k.placeholder, []) :: rest.parts
  | cleared rest => ([], []) :: rest.parts
  | filled l inner rest => (inner.render, l :: inner.places) :: rest.parts

theorem filterMap_marks (p : Pieces) (s : Site) (j : Nat) :
    (p.marks s j).filterMap Prod.snd = p.places := by
  induction p generalizing s j with
  | nil => rfl
  | text t rest ih => exact ih s j
  | hole k rest ih => exact ih s (j + 1)
  | cleared rest ih => exact ih s (j + 1)
  | filled l inner rest ihinner ih =>
    rw [marks, List.filterMap_cons, List.filterMap_append, ihinner, ih, places]

theorem flatten_parts (p : Pieces) : (p.parts.map Prod.snd).flatten = p.places := by
  induction p with
  | nil => rfl
  | text t rest ih => exact ih
  | hole k rest ih => exact ih
  | cleared rest ih => exact ih
  | filled l inner rest _ ih =>
    rw [parts, List.map_cons, List.flatten_cons, ih, places, List.cons_append]

/-- The directives of a tree are those of its own site and of the locations in it. -/
theorem mark_cases {p : Pieces} {s : Site} {j : Nat} {m : (Site × Nat) × Option Location}
    (h : m ∈ p.marks s j) : (m.1.1 = s ∧ j ≤ m.1.2) ∨ ∃ l ∈ p.places, m.1.1 = .location l := by
  induction p generalizing s j with
  | nil => cases h
  | text t rest ih => exact ih h
  | hole k rest ih =>
    rcases List.mem_cons.mp h with rfl | h
    · exact Or.inl ⟨rfl, le_rfl⟩
    · exact (ih h).imp_left fun h => ⟨h.1, by omega⟩
  | cleared rest ih =>
    rcases List.mem_cons.mp h with rfl | h
    · exact Or.inl ⟨rfl, le_rfl⟩
    · exact (ih h).imp_left fun h => ⟨h.1, by omega⟩
  | filled l inner rest ihinner ih =>
    rw [marks, List.mem_cons, List.mem_append] at h
    rcases h with rfl | h | h
    · exact Or.inl ⟨rfl, le_rfl⟩
    · rcases ihinner h with ⟨hs, -⟩ | ⟨l', hl', hs⟩
      · exact Or.inr ⟨l, List.mem_cons_self, hs⟩
      · exact Or.inr ⟨l', by simp [places, hl'], hs⟩
    · rcases ih h with ⟨hs, hj⟩ | ⟨l', hl', hs⟩
      · exact Or.inl ⟨hs, by omega⟩
      · exact Or.inr ⟨l', by simp [places, hl'], hs⟩

/-- A directive does not come again after it. -/
theorem mark_not_mem {p : Pieces} {s : Site} (hs : ∀ l ∈ p.places, s ≠ .location l) (j : Nat) :
    (s, j) ∉ (p.marks s (j + 1)).map Prod.fst := by
  intro hmem
  obtain ⟨m, hm, heq⟩ := List.mem_map.mp hmem
  rcases mark_cases hm with ⟨-, hj⟩ | ⟨l, hl, hsite⟩
  · rw [heq] at hj
    omega
  · rw [heq] at hsite
    exact hs l hl hsite

/-- Where no location is put in twice, no directive is there twice. -/
theorem nodup_marks {p : Pieces} {s : Site} (hs : ∀ l ∈ p.places, s ≠ .location l)
    (h : p.places.Nodup) (j : Nat) : ((p.marks s j).map Prod.fst).Nodup := by
  induction p generalizing s j with
  | nil => exact List.nodup_nil
  | text t rest ih => exact ih hs h j
  | hole k rest ih =>
    have hnot : (s, j) ∉ (rest.marks s (j + 1)).map Prod.fst :=
      mark_not_mem (p := rest) hs j
    exact List.nodup_cons.mpr ⟨hnot, ih hs h (j + 1)⟩
  | cleared rest ih =>
    have hnot : (s, j) ∉ (rest.marks s (j + 1)).map Prod.fst :=
      mark_not_mem (p := rest) hs j
    exact List.nodup_cons.mpr ⟨hnot, ih hs h (j + 1)⟩
  | filled l inner rest ihinner ih =>
    rw [places, List.nodup_cons, List.nodup_append, List.mem_append, not_or] at h
    obtain ⟨⟨hinner, hrest⟩, hnodup, hnodup', hdisjoint⟩ := h
    have hsl : s ≠ .location l := hs l List.mem_cons_self
    have hsinner : ∀ l' ∈ inner.places, s ≠ .location l' := fun l' hl' => hs l' (by simp [places, hl'])
    have hsrest : ∀ l' ∈ rest.places, s ≠ .location l' := fun l' hl' => hs l' (by simp [places, hl'])
    have hlinner : ∀ l' ∈ inner.places, Site.location l ≠ .location l' := by
      rintro l' hl' ⟨⟩
      exact hinner hl'
    rw [marks, List.map_cons, List.map_append, List.nodup_cons, List.mem_append, not_or,
      List.nodup_append]
    refine ⟨⟨?_, mark_not_mem hsrest j⟩, ihinner hlinner hnodup 0, ih hsrest hnodup' (j + 1), ?_⟩
    · intro hmem
      obtain ⟨m, hm, heq⟩ := List.mem_map.mp hmem
      rcases mark_cases hm with ⟨hsite, -⟩ | ⟨l', hl', hsite⟩
      · exact hsl (by rw [← hsite, heq])
      · exact hsinner l' hl' (by rw [← hsite, heq])
    · -- The sites of the two parts are different ones.
      rintro o ho o' ho' rfl
      obtain ⟨m, hm, rfl⟩ := List.mem_map.mp ho
      obtain ⟨m', hm', heq⟩ := List.mem_map.mp ho'
      have hsites : m.1.1 = m'.1.1 := by rw [heq]
      rcases mark_cases hm with ⟨hsite, -⟩ | ⟨l₁, hl₁, hsite⟩ <;>
        rcases mark_cases hm' with ⟨hsite', -⟩ | ⟨l₂, hl₂, hsite'⟩
      · exact hsl (by rw [← hsite', ← hsites, hsite])
      · rw [hsite, hsite'] at hsites
        cases hsites
        exact hrest hl₂
      · exact hsinner l₁ hl₁ (by rw [← hsite', ← hsites, hsite])
      · rw [hsite, hsite'] at hsites
        cases hsites
        exact hdisjoint l₁ hl₁ l₁ hl₂ rfl

end Pieces

/-! ## The choice -/

namespace Library

variable {lib : Library} {loads : List Load}

theorem weave_parts {ls : List Lexeme} {is : List Import} {p : Pieces} (h : Grown lib ls is p) :
    Lexeme.weave ls (p.parts.map Prod.fst) = p.render := by
  induction h with
  | nil => rfl
  | plain _ ih => rw [Pieces.parts, Lexeme.weave, ih]; rfl
  | hole _ _ ih => rw [Pieces.parts, List.map_cons, Lexeme.weave, ih]; rfl
  | cleared _ ih => rw [Pieces.parts, List.map_cons, Lexeme.weave, ih]; rfl
  | filled _ _ _ _ _ _ _ ih =>
    rw [Pieces.parts, List.map_cons, Lexeme.weave, ih, Pieces.render, Pieces.render, Pieces.render,
      Pieces.tokens, List.flatMap_append]

theorem length_parts {ls : List Lexeme} {is : List Import} {p : Pieces} (h : Grown lib ls is p) :
    p.parts.length = is.length := by
  induction h with
  | nil => rfl
  | plain _ ih => exact ih
  | hole _ _ ih => rw [Pieces.parts, List.length_cons, List.length_cons, ih]
  | cleared _ ih => rw [Pieces.parts, List.length_cons, List.length_cons, ih]
  | filled _ _ _ _ _ _ _ ih => rw [Pieces.parts, List.length_cons, List.length_cons, ih]

theorem length_directives {ls : List Lexeme} {is : List Import} {p : Pieces} (h : Grown lib ls is p)
    (offset : Nat) : (Lexeme.directives offset ls).length = is.length := by
  induction h generalizing offset with
  | nil => rfl
  | plain _ ih => exact ih _
  | hole _ _ ih | cleared _ ih | filled _ _ _ _ _ _ _ ih =>
    rw [Lexeme.directives, List.length_cons, List.length_cons, ih]

/-- A tree that is finished or not spells the source it has grown from, with something in the place
of each directive. -/
theorem Grown.render_eq {source : Text} {is : List Import} {p : Pieces}
    (h : Grown lib (Directive.parts source) is p) :
    (p.parts.map Prod.fst).length = (Directive.scan source).length ∧
      fill source (Directive.scan source) (p.parts.map Prod.fst) = p.render := by
  have hlength : (p.parts.map Prod.fst).length = (Directive.scan source).length := by
    rw [List.length_map, length_parts h, Directive.scan_eq, length_directives h]
  exact ⟨hlength, by rw [fill_scan hlength, weave_parts h]⟩

/-- A choice that is read off the marks of a tree. -/
def Chooses (chosen : Site → Nat → Bool) (marks : List ((Site × Nat) × Option Location)) : Prop :=
  ∀ m ∈ marks, chosen m.1.1 m.1.2 = m.2.isSome

/-- A text has the text of a source outside its directives, with something in the place of each. -/
def Carries (t source : Text) : Prop :=
  ∃ ts : List Text, ts.length = (Directive.scan source).length ∧
    fill source (Directive.scan source) ts <:+: t

/-- A source without directives is in the text as it is. -/
theorem Carries.isInfix {t source : Text} (h : Carries t source)
    (hscan : Directive.scan source = []) : source <:+: t := by
  obtain ⟨ts, hlength, hinfix⟩ := h
  rw [hscan, List.length_nil, List.length_eq_zero_iff] at hlength
  rw [hscan, hlength] at hinfix
  exact hinfix

/-- The text of a location that was put in is in the text of the tree. -/
theorem Grown.carries {ls : List Lexeme} {is : List Import} {p : Pieces} (h : Grown lib ls is p)
    {l : Location} {raw : Text} (hl : l ∈ p.places) (hfetch : lib.fetch l = .ok raw) :
    Carries p.render raw := by
  induction h with
  | nil => cases hl
  | @plain t _ _ p _ ih =>
    obtain ⟨ts, hlength, hinfix⟩ := ih hl
    exact ⟨ts, hlength, hinfix.trans (List.suffix_append t p.render).isInfix⟩
  | @hole _ _ _ i _ _ p _ _ ih =>
    obtain ⟨ts, hlength, hinfix⟩ := ih hl
    exact ⟨ts, hlength, hinfix.trans (List.suffix_append i.key.placeholder p.render).isInfix⟩
  | cleared _ ih => exact ih hl
  | @filled _ _ raw' _ i l' _ _ is' inner p _ _ hfetch' _ hinner _ ihinner ih =>
    have hrender : (Pieces.filled l' inner p).render = inner.render ++ p.render := by
      rw [Pieces.render, Pieces.tokens, List.flatMap_append, Pieces.render, Pieces.render]
    rw [hrender]
    rcases List.mem_cons.mp hl with rfl | hl
    · rw [hfetch] at hfetch'
      cases hfetch'
      obtain ⟨hlength, hfill⟩ := hinner.render_eq
      exact ⟨_, hlength, [], p.render, by rw [hfill]; rfl⟩
    · rcases List.mem_append.mp hl with hl | hl
      · obtain ⟨ts, hlength, hinfix⟩ := ihinner hl
        exact ⟨ts, hlength, hinfix.trans (List.prefix_append ..).isInfix⟩
      · obtain ⟨ts, hlength, hinfix⟩ := ih hl
        exact ⟨ts, hlength, hinfix.trans (List.suffix_append ..).isInfix⟩

/-- It is in the text of the directive in the place of which it was put. -/
theorem Grown.carries_part {ls : List Lexeme} {is : List Import} {p : Pieces} (h : Grown lib ls is p)
    {l : Location} {raw : Text} (hfetch : lib.fetch l = .ok raw) {part : Text × List Location}
    (hpart : part ∈ p.parts) (hl : l ∈ part.2) : Carries part.1 raw := by
  induction h with
  | nil => cases hpart
  | plain _ ih => exact ih hpart
  | hole _ _ ih | cleared _ ih =>
    rcases List.mem_cons.mp hpart with rfl | hpart
    · cases hl
    · exact ih hpart
  | filled _ _ hfetch' _ hinner _ _ ih =>
    rcases List.mem_cons.mp hpart with rfl | hpart
    · rcases List.mem_cons.mp hl with rfl | hl
      · rw [hfetch] at hfetch'
        cases hfetch'
        obtain ⟨hlength, hfill⟩ := hinner.render_eq
        exact ⟨_, hlength, hfill ▸ List.infix_rfl⟩
      · exact hinner.carries hl hfetch
    · exact ih hpart

/-- A site whose directives are expanded as its tree says has the text of the tree. -/
theorem expand_of_mapM {chosen : Site → Nat → Bool} {s : Site} {address source : Text}
    {is : List Import} {p : Pieces} (hsource : lib.source? loads s = some (address, source))
    (himports : lib.imports address source = .ok is) (h : Grown lib (Directive.parts source) is p)
    (hparts : (is.zipIdx.mapM fun x => lib.expandPart loads chosen s (lib.base address) x.1 x.2) =
      some p.parts) : lib.expand loads chosen s = some (p.render, p.places) := by
  rw [expand_eq_some hsource himports hparts, h.render_eq.2, Pieces.flatten_parts]

/-- Expanding by a choice follows the tree it was read off. -/
theorem Grown.mapM_expandPart {chosen : Site → Nat → Bool} {ls : List Lexeme} {is : List Import}
    {p : Pieces} (h : Grown lib ls is p) {s : Site} {base : Text} {j : Nat}
    (hchosen : Chooses chosen (p.marks s j)) (hbase : ∀ i ∈ is, i.key.base = base)
    (hdone : ∀ k, .hole k ∉ p.tokens) :
    ((is.zipIdx j).mapM fun x => lib.expandPart loads chosen s base x.1 x.2) = some p.parts := by
  induction h generalizing s base j with
  | nil => rfl
  | plain _ ih =>
    exact ih hchosen hbase fun k hk => hdone k (List.mem_cons_of_mem _ hk)
  | hole => exact absurd List.mem_cons_self (hdone _)
  | @cleared _ _ _ i _ is p _ ih =>
    have hempty : chosen s j = false := hchosen _ List.mem_cons_self
    have hrest := ih (fun m hm => hchosen m (List.mem_cons_of_mem _ hm))
      (fun i hi => hbase i (List.mem_cons_of_mem _ hi)) hdone
    rw [List.zipIdx_cons, List.mapM_cons, hrest, expandPart, hempty]
    rfl
  | @filled _ _ raw _ i l _ is is' inner p hfind hlocation hfetch himports hinner _ ihinner ih =>
    have hfilled : chosen s j = true := hchosen _ List.mem_cons_self
    have hdone' : (∀ k, .hole k ∉ inner.tokens) ∧ ∀ k, .hole k ∉ p.tokens := by
      constructor
      · exact fun k hk => hdone k (List.mem_append_left _ hk)
      · exact fun k hk => hdone k (List.mem_append_right _ hk)
    have hrest := ih (fun m hm => hchosen m (List.mem_cons_of_mem _ (List.mem_append_right _ hm)))
      (fun i hi => hbase i (List.mem_cons_of_mem _ hi)) hdone'.2
    have hparts := ihinner
      (fun m hm => hchosen m (List.mem_cons_of_mem _ (List.mem_append_left _ hm)))
      (fun i hi => base_of_mem_imports hlocation himports hi) hdone'.1
    have hsource : lib.source? loads (.location l) = some (l.text, raw) := by
      rw [source?, hfetch]
    have hexpand := expand_of_mapM hsource himports hinner hparts
    rw [hbase i List.mem_cons_self] at hfind
    rw [List.zipIdx_cons, List.mapM_cons, hrest, expandPart, hfilled, if_pos rfl, hfind]
    simp only [Except.toOption, Option.bind_eq_bind, Option.bind_some, hexpand]
    rfl

/-- A mark with a location is an occurrence of it. -/
theorem Grown.occurs {ls : List Lexeme} {is : List Import} {p : Pieces} (h : Grown lib ls is p)
    {s : Site} {address source : Text} {all : List Import} {j : Nat}
    (hsource : lib.source? loads s = some (address, source))
    (himports : lib.imports address source = .ok all)
    (hbase : Key.separator ∉ lib.base address) (his : all.drop j = is)
    {m : (Site × Nat) × Option Location} (hm : m ∈ p.marks s j) {l : Location} (hl : m.2 = some l) :
    lib.Occurs loads m.1.1 m.1.2 l := by
  induction h generalizing s address source all j with
  | nil => cases hm
  | plain _ ih => exact ih hsource himports hbase his hm
  | @hole _ _ _ i _ is _ _ _ ih =>
    have his' : all.drop (j + 1) = is := by rw [← List.tail_drop, his, List.tail_cons]
    rcases List.mem_cons.mp hm with rfl | hm
    · cases hl
    · exact ih hsource himports hbase his' hm
  | @cleared _ _ _ i _ is _ _ ih =>
    have his' : all.drop (j + 1) = is := by rw [← List.tail_drop, his, List.tail_cons]
    rcases List.mem_cons.mp hm with rfl | hm
    · cases hl
    · exact ih hsource himports hbase his' hm
  | @filled _ _ raw _ i l' _ is _ _ _ hfind hlocation hfetch himports' _ _ ihinner ih =>
    have his' : all.drop (j + 1) = is := by rw [← List.tail_drop, his, List.tail_cons]
    rw [Pieces.marks, List.mem_cons, List.mem_append] at hm
    rcases hm with rfl | hm | hm
    · cases hl
      have hi : all[j]? = some i := by
        rw [← Nat.add_zero j, ← List.getElem?_drop, his, List.getElem?_cons_zero]
      rw [base_of_mem_imports hbase himports (List.mem_of_getElem? hi)] at hfind
      exact ⟨address, source, all, i, hsource, himports, hi, hfind⟩
    · have hsource' : lib.source? loads (.location l') = some (l'.text, raw) := by
        rw [source?, hfetch]
      exact ihinner hsource' himports' hlocation rfl hm
    · exact ih hsource himports hbase his' hm

/-- A directive leads to one location. -/
theorem Occurs.eq {s : Site} {j : Nat} {l l' : Location} (h : lib.Occurs loads s j l)
    (h' : lib.Occurs loads s j l') : l = l' := by
  obtain ⟨address, source, is, i, hsource, himports, hi, hfind⟩ := h
  obtain ⟨address', source', is', i', hsource', himports', hi', hfind'⟩ := h'
  rw [hsource] at hsource'
  cases hsource'
  rw [himports] at himports'
  cases himports'
  rw [hi] at hi'
  cases hi'
  rw [hfind] at hfind'
  cases hfind'
  rfl

section Choice

variable (tree : Nat → Pieces) (n : Nat)

/-- The directives of the first trees. -/
def allMarks : List ((Site × Nat) × Option Location) :=
  (List.range n).flatMap fun m => (tree m).marks (.load m) 0

/-- The locations that were put in the first trees. -/
def allPlaces : List Location :=
  (List.range n).flatMap fun m => (tree m).places

/-- The directives in whose place the text of a location was put. -/
def choice (marks : List ((Site × Nat) × Option Location)) (s : Site) (j : Nat) : Bool :=
  marks.any fun m => decide (m.1 = (s, j)) && m.2.isSome

variable {tree n}

theorem filterMap_allMarks : (allMarks tree n).filterMap Prod.snd = allPlaces tree n := by
  rw [allMarks, allPlaces, List.filterMap_flatMap]
  simp only [Pieces.filterMap_marks]

theorem nodup_allMarks (h : (allPlaces tree n).Nodup) : ((allMarks tree n).map Prod.fst).Nodup := by
  rw [allPlaces, List.nodup_flatMap] at h
  obtain ⟨hnodup, hdisjoint⟩ := h
  rw [allMarks, List.map_flatMap, List.nodup_flatMap]
  refine ⟨fun m hm => Pieces.nodup_marks (by rintro l _ ⟨⟩) (hnodup m hm) 0, ?_⟩
  have hrange : (List.range n).Pairwise (· ≠ ·) := List.nodup_range
  refine (hdisjoint.and hrange).imp ?_
  rintro m₁ m₂ ⟨hplaces, hne⟩ o ho₁ ho₂
  obtain ⟨x₁, hx₁, rfl⟩ := List.mem_map.mp ho₁
  obtain ⟨x₂, hx₂, heq⟩ := List.mem_map.mp ho₂
  have hsites : x₂.1.1 = x₁.1.1 := by rw [heq]
  rcases Pieces.mark_cases hx₁ with ⟨hsite₁, -⟩ | ⟨l₁, hl₁, hsite₁⟩ <;>
    rcases Pieces.mark_cases hx₂ with ⟨hsite₂, -⟩ | ⟨l₂, hl₂, hsite₂⟩ <;>
    rw [hsite₁, hsite₂] at hsites <;> cases hsites
  · exact hne rfl
  · exact hplaces hl₁ hl₂

theorem chooses_choice {marks : List ((Site × Nat) × Option Location)}
    (h : (marks.map Prod.fst).Nodup) : Chooses (choice marks) marks := by
  intro m hm
  rw [Bool.eq_iff_iff, choice, List.any_eq_true]
  constructor
  · rintro ⟨m', hm', hchosen⟩
    rw [Bool.and_eq_true, decide_eq_true_eq] at hchosen
    rw [← List.inj_on_of_nodup_map h hm' hm hchosen.1]
    exact hchosen.2
  · intro hsome
    exact ⟨m, hm, by simp [hsome]⟩

theorem choice_of_mem {marks : List ((Site × Nat) × Option Location)} {s : Site} {j : Nat}
    {l : Location} (h : ((s, j), some l) ∈ marks) : choice marks s j = true :=
  List.any_eq_true.mpr ⟨_, h, by simp⟩

theorem exists_of_choice {marks : List ((Site × Nat) × Option Location)} {s : Site} {j : Nat}
    (h : choice marks s j = true) : ∃ l, ((s, j), some l) ∈ marks := by
  obtain ⟨⟨o, l?⟩, hm, hchosen⟩ := List.any_eq_true.mp h
  rw [Bool.and_eq_true, decide_eq_true_eq] at hchosen
  obtain ⟨rfl, hsome⟩ := hchosen
  obtain ⟨l, rfl⟩ := Option.isSome_iff_exists.mp hsome
  exact ⟨l, hm⟩

/-- Trees without holes, in which no location was put in twice, are texts expanded by the choice that
is read off their marks. -/
theorem expand_choice (tree : Nat → Pieces) (hplain : lib.Plain loads)
    (hgrown : ∀ n load, loads[n]? = some load → ∃ is, lib.imports load.address load.text = .ok is ∧
      Grown lib (Directive.parts load.text) is (tree n))
    (hdone : ∀ n < loads.length, ∀ k, .hole k ∉ (tree n).tokens)
    (hnodup : (allPlaces tree loads.length).Nodup) :
    (∀ n < loads.length, lib.expand loads (choice (allMarks tree loads.length)) (.load n) =
        some ((tree n).render, (tree n).places)) ∧
      (∀ s j, choice (allMarks tree loads.length) s j = true →
        ∃ l ∈ allPlaces tree loads.length, lib.Occurs loads s j l) ∧
      ∀ l ∈ allPlaces tree loads.length, ∃! o : Site × Nat,
        choice (allMarks tree loads.length) o.1 o.2 = true ∧ lib.Occurs loads o.1 o.2 l := by
  have hchooses := chooses_choice (nodup_allMarks hnodup)
  have hsource : ∀ n load, loads[n]? = some load →
      lib.source? loads (.load n) = some (load.address, load.text) := by
    intro n load hload
    rw [source?, hload, Option.map_some]
  have hmarks : ∀ o l, (o, some l) ∈ allMarks tree loads.length → lib.Occurs loads o.1 o.2 l := by
    intro o l hm
    obtain ⟨n, hn, hm⟩ := List.mem_flatMap.mp hm
    have hload := List.getElem?_eq_getElem (List.mem_range.mp hn)
    obtain ⟨is, himports, htree⟩ := hgrown n _ hload
    have hbase := hplain.load _ (List.mem_of_getElem? hload)
    exact htree.occurs (hsource n _ hload) himports hbase List.drop_zero hm rfl
  have hplaces : ∀ l, l ∈ allPlaces tree loads.length ↔
      ∃ o, (o, some l) ∈ allMarks tree loads.length := by
    intro l
    rw [← filterMap_allMarks, List.mem_filterMap]
    constructor
    · rintro ⟨⟨o, l?⟩, hm, rfl⟩
      exact ⟨o, hm⟩
    · rintro ⟨o, hm⟩
      exact ⟨_, hm, rfl⟩
  refine ⟨?_, ?_, ?_⟩
  · intro n hn
    have hload := List.getElem?_eq_getElem hn
    obtain ⟨is, himports, htree⟩ := hgrown n _ hload
    have hbase := hplain.load _ (List.mem_of_getElem? hload)
    refine expand_of_mapM (hsource n _ hload) himports htree ?_
    refine htree.mapM_expandPart (fun m hm => hchooses m ?_)
      (fun i hi => base_of_mem_imports hbase himports hi) (hdone n hn)
    exact List.mem_flatMap.mpr ⟨n, List.mem_range.mpr hn, hm⟩
  · intro s j hchosen
    obtain ⟨l, hm⟩ := exists_of_choice hchosen
    exact ⟨l, (hplaces l).mpr ⟨_, hm⟩, hmarks _ l hm⟩
  · intro l hl
    obtain ⟨o, hm⟩ := (hplaces l).mp hl
    refine ⟨o, ⟨(hchooses _ hm).trans rfl, hmarks o l hm⟩, ?_⟩
    rintro o' ⟨hchosen, hoccurs⟩
    obtain ⟨l', hm'⟩ := exists_of_choice hchosen
    cases (hmarks _ l' hm').eq hoccurs
    rw [← filterMap_allMarks] at hnodup
    exact congrArg Prod.fst (eq_of_filterMap_nodup hnodup hm' hm rfl rfl)

/-- So there is a choice that gives the texts. -/
theorem exists_choice (hplain : lib.Plain loads)
    (hgrown : ∀ n load, loads[n]? = some load → ∃ is, lib.imports load.address load.text = .ok is ∧
      Grown lib (Directive.parts load.text) is (tree n))
    (hdone : ∀ n < loads.length, ∀ k, .hole k ∉ (tree n).tokens)
    (hnodup : (allPlaces tree loads.length).Nodup) :
    ∃ chosen : Site → Nat → Bool,
      (∀ n < loads.length,
        lib.expand loads chosen (.load n) = some ((tree n).render, (tree n).places)) ∧
      (∀ s j, chosen s j = true → ∃ l ∈ allPlaces tree loads.length, lib.Occurs loads s j l) ∧
      ∀ l ∈ allPlaces tree loads.length,
        ∃! o : Site × Nat, chosen o.1 o.2 = true ∧ lib.Occurs loads o.1 o.2 l :=
  ⟨_, expand_choice tree hplain hgrown hdone hnodup⟩

end Choice

end Library

end StyleBatch
