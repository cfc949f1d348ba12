import StyleBatch.Proofs.Clean
import StyleBatch.Proofs.Resolution.Effect

/-!
# Texts of loads as trees

While the imports of a load are being inlined without faults, its text is spelled by a tree
(`Traced`).  It has a hole for every placeholder that is owed and a place for every location that
has been put in.

* `Traced.put`: putting something in the place of an owed placeholder.
* `Traced.effect`: every effect keeps it, with a tree that is `Redrawn`.
* `Reached.exists_traced`: so there is such a tree in every state that comes about without faults,
  and it has all that redrawing keeps.
* `Reached.text_of_settled`: what a load is settled with is its text ever after.
-/

namespace StyleBatch.Resolution

open Library

/-- A tree that spells the text of a load. -/
structure Traced (lib : Library) (loads : List Load) (r : Resolution) (n : Nat) (p : Pieces) :
    Prop where
  grown : ∀ load, Staged r n → loads[n]? = some load →
    ∃ is, lib.imports load.address load.text = .ok is ∧
      Grown lib (Directive.parts load.text) is p
  render : Staged r n → loadText r n = p.render
  nil : ¬Staged r n → p = .nil
  neat : p.Neat
  count_hole : ∀ k, p.tokens.count (.hole k) = due r n k
  nodup : p.places.Nodup
  mem_places : ∀ l, l ∈ p.places ↔ Entered r n l

/-- How the tree of a load changes with an effect. -/
inductive Redrawn (lib : Library) (loads : List Load) (r : Resolution) (n : Nat) (p : Pieces) :
    Pieces → Prop
  | same : Redrawn lib loads r n p p
  | staged {load : Load} {is : List Import} : ¬Staged r n → loads[n]? = some load →
      lib.imports load.address load.text = .ok is →
      Redrawn lib loads r n p (seed (Directive.parts load.text) is)
  | cleared {k : Key} {file : Text} {l : Location} {o : Outcome} {p' : Pieces} :
      (⟨k, file⟩ : Import).Formed → lib.find k.base file = .ok l → locationOutcome? r l = some o →
      p.put k .cleared = some p' → Redrawn lib loads r n p p'
  | filled {t : LocationTask} {file raw : Text} {l : Location} {is : List Import} {p' : Pieces} :
      r.location? l = some t → t.load = n → t.phase.entered = false →
      (⟨t.key, file⟩ : Import).Formed → lib.find t.key.base file = .ok l →
      lib.Reachable loads l → lib.fetch l = .ok raw → lib.imports l.text raw = .ok is →
      p.put t.key (.filled l (seed (Directive.parts raw) is)) = some p' → Redrawn lib loads r n p p'

variable {lib : Library} {loads : List Load} {r r' : Resolution} {n : Nat} {p : Pieces}

theorem marked_eq {address source : Text} {is : List Import}
    (himports : lib.imports address source = .ok is) :
    marked source is = (seed (Directive.parts source) is).render := by
  rw [marked, fill_scan (by rw [List.length_map, length_imports himports]), spell_seed]

theorem length_imports_parts {address source : Text} {is : List Import}
    (himports : lib.imports address source = .ok is) :
    is.length = (Lexeme.directives 0 (Directive.parts source)).length := by
  rw [← Directive.scan_eq, length_imports himports]

namespace Traced

/-- What does not touch the text leaves the tree. -/
theorem congr (h : Traced lib loads r n p) (hstill : Still n r r')
    (htext : loadText r' n = loadText r n) (hdue : due r' n = due r n) :
    Traced lib loads r' n p where
  grown load hn := h.grown load (hstill.staged.mp hn)
  render hn := by rw [htext, h.render (hstill.staged.mp hn)]
  nil hn := h.nil fun hn' => hn (hstill.staged.mpr hn')
  neat := h.neat
  count_hole k := by rw [h.count_hole, hdue]
  nodup := h.nodup
  mem_places l := by rw [h.mem_places, hstill.entered]

/-- A load that is staged gets a tree. -/
theorem stage (h : Traced lib loads r n p) {load : Load} {is : List Import}
    (hn : ¬Staged r n) (hload : loads[n]? = some load)
    (himports : lib.imports load.address load.text = .ok is) (hformed : ∀ i ∈ is, i.Formed)
    (hneat : (seed (Directive.parts load.text) is).Neat) (hstaged : Staged r' n)
    (hentered : ∀ l, Entered r' n l ↔ Entered r n l)
    (htext : loadText r' n = marked load.text is)
    (hdue : ∀ k, due r' n k = due r n k + (is.map Import.key).count k) :
    Traced lib loads r' n (seed (Directive.parts load.text) is) := by
  have hlength := length_imports_parts himports
  have hnil := h.nil hn
  subst hnil
  refine ⟨fun load' _ hload' => ?_, fun _ => ?_, fun hn' => absurd hstaged hn', hneat, fun k => ?_,
    ?_, fun l => ?_⟩
  · rw [hload] at hload'
    cases hload'
    exact ⟨is, himports, grown_seed hlength hformed⟩
  · rw [htext, marked_eq himports]
  · rw [count_seed hlength, hdue, ← h.count_hole]
    exact (Nat.zero_add _).symm
  · rw [places_seed]
    exact List.nodup_nil
  · rw [places_seed, hentered, ← h.mem_places]
    rfl

/-- What is owed has a hole. -/
theorem exists_put (h : Traced lib loads r n p) {k : Key} (howed : 0 < due r n k)
    (f : Pieces → Pieces) : Staged r n ∧ ∃ p', p.put k f = some p' := by
  rw [← h.count_hole] at howed
  have hmem := List.count_pos_iff.mp howed
  constructor
  · by_contra hn
    rw [h.nil hn] at hmem
    exact List.not_mem_nil hmem
  · cases hput : p.put k f with
    | none => exact absurd hmem (Pieces.hole_not_mem_of_put hput)
    | some p' => exact ⟨p', rfl⟩

/-- Something is put in the place of a placeholder that was owed: `extra` are its tokens, `added`
its places and `is` the imports it has placeholders for. -/
theorem put (h : Traced lib loads r n p) {k : Key} {p' : Pieces} (hn : Staged r n)
    (f : Pieces → Pieces) (hput : p.put k f = some p') (extra : List Token) (added : List Location)
    (is : List Import)
    (hgrown : ∀ {filler specifier : Text} {quote : Char} {i : Import} {ls : List Lexeme}
      {is : List Import} {p : Pieces}, i.Formed → i.key = k → Grown lib ls is p →
      Grown lib (.directive filler quote specifier :: ls) (i :: is) (f p))
    (htokens : ∀ rest, (f rest).tokens = extra ++ rest.tokens)
    (hneat : ∀ token ∈ extra, token.Neat)
    (hcount : ∀ k', extra.count (.hole k') = (is.map Import.key).count k')
    (hplaces : ∀ rest, (f rest).places = added ++ rest.places) (hadded : added.Nodup)
    (hnew : ∀ l ∈ added, ¬Entered r n l) (hstaged : Staged r' n ↔ Staged r n)
    (hentered : ∀ l, Entered r' n l ↔ Entered r n l ∨ l ∈ added)
    (htext : loadText r' n = k.substitute (extra.flatMap Token.spell) (loadText r n))
    (hdue : ∀ k', due r' n k' + (if k = k' then 1 else 0) =
      due r n k' + (is.map Import.key).count k') : Traced lib loads r' n p' := by
  have hperm : p'.places.Perm (added ++ p.places) := by
    rw [List.perm_iff_count]
    intro l
    rw [Pieces.count_places_put hplaces hput, List.count_append]
  refine ⟨fun load hm hload => ?_, fun hm => ?_, fun hm => absurd (hstaged.mpr hn) hm,
    h.neat.put htokens hput hneat, fun k' => ?_, ?_, fun l => ?_⟩
  · obtain ⟨is', himports, htree⟩ := h.grown load hn hload
    exact ⟨is', himports, htree.put hgrown hput⟩
  · rw [htext, h.render hn, Pieces.substitute_render htokens hput h.neat]
  · have hput' := Pieces.count_put htokens hput k'
    have hdue' := hdue k'
    rw [h.count_hole, hcount] at hput'
    omega
  · rw [hperm.nodup_iff, List.nodup_append]
    refine ⟨hadded, h.nodup, ?_⟩
    rintro l hl _ hl' rfl
    exact hnew l hl ((h.mem_places l).mp hl')
  · rw [hperm.mem_iff, List.mem_append, h.mem_places, hentered, or_comm]

/-- Every effect leaves a tree that spells the text. -/
theorem effect (h : Traced lib loads r n p) (hclean : lib.Clean loads)
    (he : Effect lib loads n r r') :
    ∃ p', Traced lib loads r' n p' ∧ Redrawn lib loads r n p p' := by
  have hplain := hclean.barless.plain
  cases he with
  | quiet hstill htext hdue => exact ⟨p, h.congr hstill htext hdue, .same⟩
  | @staged load is hn hload himports hstaged hentered htext hdue =>
    have hmem := List.mem_of_getElem? hload
    have hformed : ∀ i ∈ is, i.Formed :=
      fun i hi => formed_of_mem_imports (hplain.load load hmem) himports hi
    exact ⟨_, h.stage hn hload himports hformed (hclean.neat_load hmem himports) hstaged hentered
      htext hdue, .staged hn hload himports⟩
  | @cleared k file l o hformed hfind hl hstill htext hdue =>
    have howed : 0 < due r n k := by
      rw [← hdue k, if_pos rfl]
      omega
    obtain ⟨hn, p', hput⟩ := h.exists_put howed .cleared
    refine ⟨p', ?_, .cleared hformed hfind hl hput⟩
    exact h.put hn .cleared hput [] [] [] (fun _ _ hp => .cleared hp) (fun _ => rfl)
      (fun _ hmem => nomatch hmem) (fun _ => rfl) (fun _ => rfl) List.nodup_nil
      (fun _ hmem => nomatch hmem) hstill.staged (fun l => by simp [hstill.entered l]) htext hdue
  | @entered t file raw l is hlocation hload hformed hfind hl hfetch himports howed hstaged hphase
      hentered htext hdue =>
    have hbase := hplain.location l hl
    have hlength := length_imports_parts himports
    have hseed : Grown lib (Directive.parts raw) is (seed (Directive.parts raw) is) :=
      grown_seed hlength fun i hi => formed_of_mem_imports hbase himports hi
    have hplaces : ∀ rest, (Pieces.filled l (seed (Directive.parts raw) is) rest).places =
        [l] ++ rest.places := by
      intro rest
      rw [Pieces.places, places_seed, List.nil_append, List.singleton_append]
    have hnew : ∀ l' ∈ [l], ¬Entered r n l' := by
      rintro l' hl' ⟨t', ht', -, hentered'⟩
      rw [List.mem_singleton.mp hl', hlocation] at ht'
      cases ht'
      rw [hphase] at hentered'
      cases hentered'
    have hentered' : ∀ l', Entered r' n l' ↔ Entered r n l' ∨ l' ∈ [l] := by
      intro l'
      rw [hentered, List.mem_singleton]
    rw [marked_eq himports] at htext
    obtain ⟨hn, p', hput⟩ := h.exists_put howed (.filled l (seed (Directive.parts raw) is))
    refine ⟨p', ?_, .filled hlocation hload hphase hformed hfind hl hfetch himports hput⟩
    exact h.put hn (.filled l (seed (Directive.parts raw) is)) hput _ [l] is
      (fun hi hkey hp => by
        -- The key of the hole determines the file that was looked for.
        obtain rfl := hformed.eq hi hkey.symm
        exact .filled hfind hbase hfetch himports hseed hp)
      (fun _ => rfl) (hclean.neat_location hl hfetch himports) (count_seed hlength) hplaces
      (List.nodup_singleton l) hnew hstaged hentered' htext hdue

/-- A load more leaves the tree. -/
theorem append (h : Traced lib loads r n p) (hlt : Staged r n → n < loads.length)
    (more : List Load) : Traced lib (loads ++ more) r n p where
  grown load hn hload := by
    rw [List.getElem?_append_left (hlt hn)] at hload
    exact h.grown load hn hload
  render := h.render
  nil := h.nil
  neat := h.neat
  count_hole := h.count_hole
  nodup := h.nodup
  mem_places := h.mem_places

end Traced

theorem Redrawn.append {p' : Pieces} (h : Redrawn lib loads r n p p') (more : List Load) :
    Redrawn lib (loads ++ more) r n p p' := by
  cases h with
  | same => exact .same
  | staged hn hload himports =>
    exact .staged hn (getElem?_append_of_eq_some hload more) himports
  | cleared hformed hfind hl hput => exact .cleared hformed hfind hl hput
  | filled hlocation hload hphase hformed hfind hl hfetch himports hput =>
    exact .filled hlocation hload hphase hformed hfind (hl.append more) hfetch himports hput

/-! ## In every state -/

theorem debt_begin (r : Resolution) (n : Nat) : debt (r.begin n) = debt r :=
  (total_begin debtWeight r n).trans (add_zero _)

theorem Still.begin (r : Resolution) (m : Nat) : Still n r (r.begin m) where
  staged := by
    constructor
    · rintro ⟨i, phase, hi, hphase⟩
      rw [Resolution.begin, List.getElem?_append] at hi
      split at hi
      · exact ⟨i, phase, hi, hphase⟩
      · obtain ⟨hlt, hi⟩ := List.getElem?_eq_some_iff.mp hi
        simp only [List.getElem_singleton] at hi
        cases hi
        exact absurd rfl hphase
    · exact (Later.begin r m).staged n
  entered _ := Iff.rfl

/-- A load more leaves the texts as they are. -/
theorem loadText_addLoad (hn : n < r.loads.length) (load : Load) :
    loadText (r.addLoad load) n = loadText r n := by
  rw [loadText, addLoad, List.getElem?_append_left hn, loadText]

theorem Traced.addLoad (h : Traced lib loads r n p) (hlt : Staged r n → n < r.loads.length)
    (load : Load) : Traced lib loads (r.addLoad load) n p where
  grown := h.grown
  render hn := by rw [loadText_addLoad (hlt hn), h.render hn]
  nil := h.nil
  neat := h.neat
  count_hole := h.count_hole
  nodup := h.nodup
  mem_places := h.mem_places

/-- A poll has an effect on a load that meets no fault. -/
theorem Reached.effect (h : Reached lib loads r) (hplain : lib.Plain loads) {task : Task}
    (hcan : CanStep r task) (hf : Faultless lib loads (step task r) n) :
    Effect lib loads n r (step task r) ∧ Faultless lib loads r n := by
  have ht := transition_of_canStep h.coherent.1 hcan
  exact ⟨ht.effect h.coherent.1 h.sound hplain hf, hf.of_later ht.later⟩

/-- A tree spells the text of a load that meets no fault, and it has all that redrawing keeps. -/
theorem Reached.exists_traced {all more : List Load} {Q : Resolution → Pieces → Prop}
    (h : Reached lib loads r) (hmore : loads ++ more = all) (hclean : lib.Clean all)
    (hf : Faultless lib loads r n) (hstart : ∀ r, Q r .nil)
    (hlater : ∀ {r r' p}, Later r r' → Q r p → Q r' p)
    (hdraw : ∀ {r p p'}, Traced lib all r n p → Redrawn lib all r n p p' → Q r p → Q r p') :
    ∃ p, Traced lib loads r n p ∧ Q r p := by
  induction h generalizing more with
  | start =>
    have hstaged : ¬Staged (Resolution.start lib.loader lib.extension lib.disk) n := by
      rintro ⟨i, phase, ⟨⟩, -⟩
    refine ⟨.nil, ⟨fun _ hn => absurd hn hstaged, fun hn => absurd hn hstaged, fun _ => rfl,
      fun _ h => (nomatch h), fun _ => rfl, List.nodup_nil, fun l => ?_⟩, hstart _⟩
    constructor
    · rintro ⟨⟩
    · rintro ⟨t, ⟨⟩, -⟩
  | @submit loads r load hr ih =>
    have hmore' : loads ++ load :: more = all := by
      rw [← hmore, List.append_assoc]
      rfl
    obtain ⟨p, hp, hq⟩ := ih hmore' hf.of_submit
    obtain ⟨hcoherent, hlength⟩ := hr.coherent
    have hsame : Later r (r.addLoad load) := .of_eq rfl rfl
    refine ⟨p, ?_, hlater hsame hq⟩
    exact (hp.append (fun hn => hlength ▸ hcoherent.lt_of_staged hn) [load]).addLoad
      hcoherent.lt_of_staged load
  | @begin loads r m _ _ _ ih =>
    obtain ⟨p, hp, hq⟩ := ih hmore (hf.of_later (.begin r m))
    exact ⟨p, hp.congr (.begin r m) rfl (due_eq (debt_begin r m)), hlater (.begin r m) hq⟩
  | @poll loads r task hr hcan ih =>
    have hclean' : lib.Clean loads := Clean.of_append (hmore ▸ hclean)
    obtain ⟨heffect, hf'⟩ := hr.effect hclean'.barless.plain hcan hf
    obtain ⟨p, hp, hq⟩ := ih hmore hf'
    obtain ⟨p', hp', hdrawn⟩ := hp.effect hclean' heffect
    obtain ⟨hcoherent, hlength⟩ := hr.coherent
    refine ⟨p', hp', hlater (transition_of_canStep hcoherent hcan).later ?_⟩
    refine hdraw ?_ (hmore ▸ hdrawn.append more) hq
    exact hmore ▸ hp.append (fun hn => hlength ▸ hcoherent.lt_of_staged hn) more
  | @elsewhere loads r world _ _ ih =>
    have hsame : Later r { r with world } := .of_eq rfl rfl
    obtain ⟨p, hp, hq⟩ := ih hmore (hf.of_later hsame)
    exact ⟨p, hp.congr (.of_eq rfl fun _ => rfl) rfl rfl, hlater hsame hq⟩

/-- Trees that spell the texts of the loads. -/
structure Drawn (lib : Library) (loads : List Load) (r : Resolution) (tree : Nat → Pieces) :
    Prop where
  grown : ∀ n load, Staged r n → loads[n]? = some load →
    ∃ is, lib.imports load.address load.text = .ok is ∧
      Grown lib (Directive.parts load.text) is (tree n)
  render : ∀ n, Staged r n → loadText r n = (tree n).render
  nil : ∀ n, ¬Staged r n → tree n = .nil
  neat : ∀ n, (tree n).Neat
  count_hole : ∀ n k, (tree n).tokens.count (.hole k) = (debt r).count (n, k)
  nodup : ∀ n, (tree n).places.Nodup
  mem_places : ∀ n l, l ∈ (tree n).places ↔ Entered r n l

/-- In every state that comes about without faults, trees spell the texts. -/
theorem Reached.drawn (h : Reached lib loads r) (hclean : lib.Clean loads)
    (hf : ∀ n, Faultless lib loads r n) : ∃ tree, Drawn lib loads r tree := by
  have htraced : ∀ n, ∃ p, Traced lib loads r n p := by
    intro n
    obtain ⟨p, hp, -⟩ := h.exists_traced (Q := fun _ _ => True) (List.append_nil loads) hclean (hf n)
      (fun _ => trivial) (fun _ _ => trivial) (fun _ _ _ => trivial)
    exact ⟨p, hp⟩
  choose tree htree using htraced
  exact ⟨tree, fun n => (htree n).grown, fun n => (htree n).render, fun n => (htree n).nil,
    fun n => (htree n).neat, fun n => (htree n).count_hole, fun n => (htree n).nodup,
    fun n => (htree n).mem_places⟩

/-- A load that is settled keeps the text it was settled with. -/
theorem Reached.text_of_settled (h : Reached lib loads r) (hplain : lib.Plain loads) {i : Nat}
    {text : Text} (hf : Faultless lib loads r n)
    (hi : r.inlinings[i]? = some ⟨n, .settled (.ok text)⟩) : loadText r n = text := by
  induction h with
  | start => cases hi
  | submit load hr ih =>
    have hn := hr.coherent.1.loads _ (List.mem_of_getElem? hi)
    rw [loadText_addLoad hn, ih hplain.of_append hf.of_submit hi]
  | @begin _ r m _ _ _ ih =>
    refine ih hplain (hf.of_later (.begin r m)) ?_
    rw [Resolution.begin, List.getElem?_append] at hi
    split at hi
    · exact hi
    · obtain ⟨hlt, hi⟩ := List.getElem?_eq_some_iff.mp hi
      simp only [List.getElem_singleton] at hi
      cases hi
  | poll hr hcan ih =>
    obtain ⟨heffect, hf'⟩ := hr.effect hplain hcan hf
    have hsound := hr.sound
    have ht := transition_of_canStep hr.coherent.1 hcan
    rcases ht.inlining_cases hsound hi with hi | ⟨-, htext⟩
    · have hnone : ∀ k, due _ n k = 0 := fun k =>
        Multiset.count_eq_zero.mpr (hsound.not_mem_debt hr.coherent.1 ⟨i, _, hi⟩ k)
      rw [heffect.loadText_eq ⟨i, _, hi, by simp⟩ hnone, ih hplain hf' hi]
    · exact htext text rfl
  | elsewhere world _ _ ih => exact ih hplain (hf.of_later (.of_eq rfl rfl)) hi

theorem Reached.loadText_of_settled (h : Reached lib loads r) (hplain : lib.Plain loads)
    (hf : ∀ n, Faultless lib loads r n) {i n : Nat} {text : Text}
    (hi : r.inlinings[i]? = some ⟨n, .settled (.ok text)⟩) : loadText r n = text :=
  h.text_of_settled hplain (hf n) hi

end StyleBatch.Resolution
