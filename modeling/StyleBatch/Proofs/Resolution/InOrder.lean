import StyleBatch.Proofs.Resolution.Arranged
import StyleBatch.Proofs.Resolution.Fetches
import StyleBatch.Proofs.Resolution.Inlined
import StyleBatch.Proofs.Walk

/-!
# The order of what is inlined

Imports are resolved beside each other, and a location that is imported more than once is put in the
place of whichever directive is there when it has been fetched.  Where that cannot be but one, the
text of a load does not depend on the order in which things are fetched.

* `Sound.exists_occursAs`: a location is requested by a directive.
* `Arranged.eq_anchor`: a location with an anchor stands there.
* `Alone`: a load that was inlined alone, with the tree of its text.  `Alone.expand_choice` says which
  directives are expanded, `Alone.run_walk` when they are those that are met first.
* `inlined_in_order`: both, for every load that has succeeded.
-/

namespace StyleBatch

open Library Resolution

namespace Library

variable (lib : Library) (loads : List Load)

/-- The site is a load, or a location that is reached. -/
def Visits : Site → Prop
  | .load _ => True
  | .location l => lib.Reachable loads l

/-- All directives that lead to the location have the same key. -/
def Uniform (l : Location) : Prop :=
  ∀ s j k s' j' k', lib.Visits loads s → lib.Visits loads s' → lib.OccursAs loads s j k l →
    lib.OccursAs loads s' j' k' l → k = k'

end Library

namespace Resolution

variable {lib : Library} {loads : List Load} {r : Resolution} {n : Nat} {p : Pieces}

/-- A location was requested by a directive that leads to it. -/
theorem Sound.exists_occursAs (h : Sound lib loads r) (hplain : lib.Plain loads) {l : Location}
    {t : LocationTask} (hl : r.location? l = some t) :
    ∃ s j, lib.Visits loads s ∧ lib.OccursAs loads s j t.key l := by
  obtain ⟨w, hw, -⟩ := h.exists_way_location hl
  cases hw with
  | @location way i _ t' hway hl' hkey =>
    rw [hl] at hl'
    cases hl'
    obtain ⟨hsource, hasks, -⟩ := hway.of_key
    obtain ⟨-, ⟨hfind, -⟩, -⟩ := (hway.location hl hkey).of_location h
    have hopen := hsource.open h
    have hbase := hopen.separator_not_mem_base hplain
    cases way with
    | key => exact hasks.elim
    | load n =>
      obtain ⟨load, is, hload, himports, hi⟩ := hasks
      obtain ⟨j, hj⟩ := List.getElem?_of_mem hi
      rw [Way.address, hload, Option.map_some, Option.getD_some] at hbase
      have hdirective : lib.HasDirective loads (.load n) j i :=
        ⟨load.address, load.text, is, by rw [source?, hload, Option.map_some], himports, hbase, hj⟩
      exact ⟨.load n, j, trivial, hkey ▸ hdirective.occursAs hfind⟩
    | location way l' =>
      obtain ⟨raw, is, hfetch, himports, hi⟩ := hasks
      obtain ⟨j, hj⟩ := List.getElem?_of_mem hi
      have hdirective : lib.HasDirective loads (.location l') j i :=
        ⟨l'.text, raw, is, by rw [source?, hfetch], himports, hbase, hj⟩
      exact ⟨.location l', j, hopen.reachable hplain, hkey ▸ hdirective.occursAs hfind⟩

/-- A key that ends in a text belongs to a directive that leads to a location. -/
theorem Sound.find_of_keyOutcome? (h : Sound lib loads r) (hplain : lib.Plain loads) {i : Import}
    (hi : i.Formed) {text : Text} (ho : keyOutcome? r i.key = some (.ok text)) :
    ∃ l, lib.find i.key.base i.file = .ok l ∧ locationOutcome? r l = some (.ok text) := by
  obtain ⟨t, hk, -⟩ := keyOutcome?_eq_some.mp ho
  have heq : (⟨i.key, t.file⟩ : Import) = i := (h.formed hplain hk).eq hi rfl
  have hfile : t.file = i.file := congrArg Import.file heq
  rw [← hfile]
  exact h.exists_location_of_ok hk ho

/-- When a load has succeeded, the directives of its tree lead to locations that are settled. -/
theorem Traced.exists_outcome (htraced : Traced lib loads r n p) (h : Sound lib loads r)
    (hplain : lib.Plain loads) (hn : Succeeded r n) {load : Load} (hload : loads[n]? = some load)
    {is : List Import} (hgrown : Grown lib (Directive.parts load.text) is p)
    (his : lib.Remain loads (.load n) 0 is) {x : (Site × Nat) × Station}
    (hx : x ∈ p.stations (.load n) 0) :
    ∃ l text, lib.Occurs loads x.1.1 x.1.2 l ∧ locationOutcome? r l = some (.ok text) := by
  obtain ⟨i, hi, -⟩ := hgrown.station his hx
  obtain ⟨text, ho⟩ : ∃ text, keyOutcome? r i.key = some (.ok text) := by
    obtain ⟨address, source, all, hsource, himports, -, hmem⟩ := id hi
    have hmem := List.mem_of_getElem? hmem
    rcases Pieces.station_cases hx with ⟨hsite, -⟩ | ⟨l, hl, hsite⟩
    · rw [hsite, source?, hload] at hsource
      cases hsource
      obtain ⟨_, _, hfinished⟩ := h.finished_of_succeeded hload hn
      exact hfinished.keyOutcome?_of_ok himports hmem
    · obtain ⟨t, ht, rfl, -⟩ := (htraced.mem_places l).mp hl
      obtain ⟨text, ho⟩ := h.locationOutcome?_of_succeeded ht hn
      obtain ⟨raw, hfetch, hfinished⟩ := h.finished_of_outcome ht ho
      rw [hsite, source?, hfetch] at hsource
      cases hsource
      exact hfinished.keyOutcome?_of_ok himports hmem
  obtain ⟨l, hfind, ho⟩ := h.find_of_keyOutcome? hplain hi.formed ho
  exact ⟨l, text, (hi.occursAs hfind).occurs, ho⟩

/-- A location that has an anchor stands there. -/
theorem Arranged.eq_anchor (h : Arranged lib loads n r p) {ls : List Lexeme} {is : List Import}
    (hgrown : Grown lib ls is p) (his : lib.Remain loads (.load n) 0 is) (hnodup : p.places.Nodup)
    {l : Location} {s : Site} {j : Nat} (hanchored : lib.Anchored loads n l s j)
    (hkey : ∀ k t, (s = .load n ∨ ∃ l' ∈ p.places, s = .location l') →
      lib.OccursAs loads s j k l → r.location? l = some t → t.key = k)
    {o : Site × Nat} (ho : (o, .filled l) ∈ p.stations (.load n) 0) : o = (s, j) := by
  obtain ⟨i, hi, -, hleads⟩ := hgrown.station his ho
  have hoccurs : lib.Occurs loads o.1 o.2 l := (hi.occursAs (hleads l rfl)).occurs
  have hsite := hgrown.gate_cases his hanchored.gate ho hoccurs
  obtain ⟨st, hst⟩ : ∃ st, ((s, j), st) ∈ p.stations (.load n) 0 := by
    rcases hsite with rfl | ⟨l', hl', rfl⟩
    · obtain ⟨address, source, all, hsource, himports, -, hall⟩ := his
      have hlt := hanchored.occurs.lt_length hsource himports
      rw [List.drop_zero] at hall
      rw [hall] at hlt
      obtain ⟨st, hst⟩ := hgrown.exists_station hlt (.load n) 0
      rw [Nat.zero_add] at hst
      exact ⟨st, hst⟩
    · exact hgrown.exists_station_of_mem hl' hanchored.occurs (.load n) 0
  obtain ⟨k, hoccursAs⟩ := hanchored.occurs.exists_key
  have hbehind := h.first (s, j) k l hoccursAs hanchored.gate fun t ht => hkey k t hsite hoccursAs ht
  have hbefore := hgrown.pairwise_anchored his hanchored (around_load n s) (fun _ _ => nofun) hnodup
  -- It does not stand behind the anchor, and nothing that leads to it stands before that.
  obtain ⟨before, after, heq⟩ := List.append_of_mem ho
  rw [heq, List.pairwise_append, List.pairwise_cons] at hbehind hbefore
  rw [heq, List.mem_append, List.mem_cons] at hst
  rcases hst with hst | hst | hst
  · exact absurd rfl (hbehind.2.2 _ hst (o, .filled l) List.mem_cons_self rfl)
  · exact (congrArg Prod.fst hst).symm
  · exact absurd hoccurs (hbefore.2.1.1 _ hst rfl)

/-- The locations in the tree of the only load are those that it reaches. -/
theorem Traced.mem_places_iff {load : Load} (htraced : Traced lib [load] r 0 p)
    (h : Sound lib [load] r) (hplain : lib.Plain [load]) (hn : Succeeded r 0) {l : Location} :
    l ∈ p.places ↔ lib.Reachable [load] l := by
  rw [htraced.mem_places]
  constructor
  · rintro ⟨t, ht, -⟩
    obtain ⟨w, hw, -⟩ := h.exists_way_location ht
    exact (hw.open h).reachable hplain
  · intro hl
    have hall : ∀ n < [load].length, Succeeded r n := by
      intro n hlt
      rw [List.length_singleton, Nat.lt_one_iff] at hlt
      exact hlt ▸ hn
    obtain ⟨text, ho⟩ := h.outcome_of_reachable hplain hall hl
    obtain ⟨t, ht, hphase⟩ := locationOutcome?_eq_some.mp ho
    obtain ⟨w, hw, hnumber, -⟩ := h.exists_way_location ht
    have hlt := hw.number_lt
    rw [List.length_singleton, Nat.lt_one_iff, Way.number, hnumber] at hlt
    exact ⟨t, ht, hlt, by rw [hphase]; rfl⟩

/-! ## A load alone -/

/-- A load that was inlined alone and has succeeded, with the tree of its text. -/
structure Alone (lib : Library) (load : Load) (r : Resolution) (is : List Import) (p : Pieces) :
    Prop where
  sound : Sound lib [load] r
  plain : lib.Plain [load]
  succeeded : Succeeded r 0
  imports : lib.imports load.address load.text = .ok is
  grown : Grown lib (Directive.parts load.text) is p
  traced : Traced lib [load] r 0 p
  arranged : Arranged lib [load] 0 r p
  done : ∀ k, .hole k ∉ p.tokens

theorem Reached.exists_alone {load : Load} (h : Reached lib [load] r) (hclean : lib.Clean [load])
    {i : Nat} {text : Text} (hi : r.inlinings[i]? = some ⟨0, .settled (.ok text)⟩) :
    ∃ is p, Alone lib load r is p ∧ text = p.render := by
  have hplain := hclean.barless.plain
  have hn : Succeeded r 0 := ⟨i, text, hi⟩
  have hf := h.sound.faultless_of_succeeded hn
  obtain ⟨p, htraced, harranged⟩ := h.exists_arranged hclean (n := 0) rfl hf
  obtain ⟨is, himports, hgrown⟩ := htraced.grown load hn.staged rfl
  have hdone : ∀ k, .hole k ∉ p.tokens := by
    intro k
    rw [← List.count_eq_zero, htraced.count_hole, due, Multiset.count_eq_zero]
    exact h.sound.not_mem_debt h.coherent.1 hn.settled k
  refine ⟨is, p, ⟨h.sound, hplain, hn, himports, hgrown, htraced, harranged, hdone⟩, ?_⟩
  rw [← h.text_of_settled hplain hf hi, htraced.render hn.staged]

namespace Alone

variable {load : Load} {is : List Import} {l : Location} {s : Site} {j : Nat} {o : Site × Nat}

theorem base (h : Alone lib load r is p) : Key.separator ∉ lib.base load.address :=
  h.plain.load load (List.mem_singleton_self load)

theorem remain (h : Alone lib load r is p) : lib.Remain [load] (.load 0) 0 is :=
  remain_load rfl h.imports h.base

theorem mem_places (h : Alone lib load r is p) : l ∈ p.places ↔ lib.Reachable [load] l :=
  h.traced.mem_places_iff h.sound h.plain h.succeeded

/-- Every directive in the tree leads to a location that is reached. -/
theorem exists_occurs (h : Alone lib load r is p) {x : (Site × Nat) × Station}
    (hx : x ∈ p.stations (.load 0) 0) :
    ∃ l, lib.Occurs [load] x.1.1 x.1.2 l ∧ lib.Reachable [load] l := by
  obtain ⟨l, text, hoccurs, ho⟩ :=
    h.traced.exists_outcome h.sound h.plain h.succeeded rfl h.grown h.remain hx
  obtain ⟨t, ht, -⟩ := locationOutcome?_eq_some.mp ho
  obtain ⟨w, hw, -⟩ := h.sound.exists_way_location ht
  exact ⟨l, hoccurs, (hw.open h.sound).reachable h.plain⟩

/-- Where all directives have one key, the first request has it. -/
theorem eq_anchor (h : Alone lib load r is p) (huniform : lib.Uniform [load] l)
    (hanchored : lib.Anchored [load] 0 l s j) (ho : (o, .filled l) ∈ p.stations (.load 0) 0) :
    o = (s, j) := by
  refine h.arranged.eq_anchor h.grown h.remain h.traced.nodup hanchored
    (fun k t hsite hk ht => ?_) ho
  obtain ⟨s', j', hvisits', hk'⟩ := h.sound.exists_occursAs h.plain ht
  refine huniform s' j' t.key s j k hvisits' ?_ hk' hk
  rcases hsite with rfl | ⟨l', hl', rfl⟩
  · exact trivial
  · exact h.mem_places.mp hl'

/-- The choice that is read off the tree. -/
theorem expand_choice (h : Alone lib load r is p) :
    lib.expand [load] (choice (p.marks (.load 0) 0)) (.load 0) = some (p.render, p.places) ∧
      (∀ s j, choice (p.marks (.load 0) 0) s j = true →
        ∃ l ∈ p.places, lib.Occurs [load] s j l) ∧
      ∀ l ∈ p.places, ∃! o : Site × Nat,
        choice (p.marks (.load 0) 0) o.1 o.2 = true ∧ lib.Occurs [load] o.1 o.2 l := by
  have hmarks : allMarks (fun _ => p) [load].length = p.marks (.load 0) 0 := List.append_nil _
  have hplaces : allPlaces (fun _ => p) [load].length = p.places := List.append_nil _
  have hgrown : ∀ (n : Nat) (load' : Load), [load][n]? = some load' →
      ∃ is, lib.imports load'.address load'.text = .ok is ∧
        Grown lib (Directive.parts load'.text) is p := by
    intro n load' hload'
    obtain rfl := List.mem_singleton.mp (List.mem_of_getElem? hload')
    exact ⟨is, h.imports, h.grown⟩
  have hnodup : (allPlaces (fun _ => p) [load].length).Nodup := hplaces ▸ h.traced.nodup
  obtain ⟨hexpand, hoccurs, honce⟩ :=
    Library.expand_choice (fun _ => p) h.plain hgrown (fun _ _ => h.done) hnodup
  rw [hmarks] at hexpand hoccurs honce
  rw [hplaces] at hoccurs honce
  exact ⟨hexpand 0 Nat.one_pos, hoccurs, honce⟩

theorem choice_anchor (h : Alone lib load r is p) (hl : lib.Reachable [load] l)
    (huniform : lib.Uniform [load] l) (hanchored : lib.Anchored [load] 0 l s j) :
    choice (p.marks (.load 0) 0) s j = true := by
  obtain ⟨o, ho⟩ := Pieces.mem_places_iff.mp (h.mem_places.mpr hl)
  obtain rfl := h.eq_anchor huniform hanchored ho
  refine choice_of_mem (l := l) ?_
  rw [Pieces.marks_eq]
  exact List.mem_map_of_mem ho

/-- Where all locations have anchors, each of them stands where it is met first. -/
theorem pairwise_first (h : Alone lib load r is p)
    (hall : ∀ l, lib.Reachable [load] l → lib.Uniform [load] l ∧ ∃ s j, lib.Anchored [load] 0 l s j)
    (l : Location) : (p.stations (.load 0) 0).Pairwise (First [load] lib l) := by
  by_cases hl : l ∈ p.places
  · obtain ⟨huniform, s, j, hanchored⟩ := hall l (h.mem_places.mp hl)
    have hbefore := h.grown.pairwise_anchored h.remain hanchored (around_load 0 s) (by simp)
      h.traced.nodup
    refine hbefore.imp_of_mem fun {x y} _ hy hxy hfilled => ?_
    obtain ⟨o, st⟩ := y
    cases hfilled
    exact hxy (h.eq_anchor huniform hanchored hy)
  · refine List.pairwise_of_forall_mem_list fun x _ y hy hfilled => ?_
    obtain ⟨o, st⟩ := y
    cases hfilled
    exact absurd (Pieces.mem_places_iff.mpr ⟨o, hy⟩) hl

/-- So the tree is walked over. -/
theorem run_walk (h : Alone lib load r is p)
    (hall : ∀ l, lib.Reachable [load] l → lib.Uniform [load] l ∧ ∃ s j, lib.Anchored [load] 0 l s j) :
    (lib.walk [load] (.load 0)).run [] = some (p.render, p.places) := by
  have hrow : (is.mapM (lib.walkImport [load] (lib.base load.address))).run [] =
      some (p.parts.map Prod.fst, [] ++ p.places) := by
    refine h.grown.run_walk h.remain (fun i hi => base_of_mem_imports h.base h.imports hi) h.done
      h.traced.nodup (by simp) (h.pairwise_first hall) fun o ho => ?_
    obtain ⟨l, hoccurs, hl⟩ := h.exists_occurs ho
    exact ⟨l, hoccurs, Or.inr (h.mem_places.mpr hl)⟩
  rw [Library.run_walk rfl h.imports hrow, h.grown.render_eq.2, List.nil_append]

end Alone

/-- When a load that was inlined alone has succeeded, one directive is chosen for every location
that it reaches, and its text is its source with the chosen directives expanded and the others left
empty.  For a location with an anchor and with one key it is the anchor that is chosen.  If all
locations are like that, the text is the source with every location expanded where it is met first. -/
theorem inlined_in_order {load : Load} (hclean : lib.Clean [load]) (h : Reached lib [load] r)
    {i : Nat} {text : Text} (hi : r.inlinings[i]? = some ⟨0, .settled (.ok text)⟩) :
    ∃ (chosen : Site → Nat → Bool) (below : List Location),
      lib.expand [load] chosen (.load 0) = some (text, below) ∧
      (∀ l, lib.Reachable [load] l →
        ∃! o : Site × Nat, chosen o.1 o.2 = true ∧ lib.Occurs [load] o.1 o.2 l) ∧
      (∀ s j, chosen s j = true → ∃ l, lib.Reachable [load] l ∧ lib.Occurs [load] s j l) ∧
      (∀ l s j, lib.Reachable [load] l → lib.Uniform [load] l → lib.Anchored [load] 0 l s j →
        chosen s j = true) ∧
      ((∀ l, lib.Reachable [load] l →
          lib.Uniform [load] l ∧ ∃ s j, lib.Anchored [load] 0 l s j) →
        (lib.walk [load] (.load 0)).run [] = some (text, below)) := by
  obtain ⟨is, p, halone, rfl⟩ := h.exists_alone hclean hi
  obtain ⟨hexpand, hoccurs, honce⟩ := halone.expand_choice
  refine ⟨choice (p.marks (.load 0) 0), p.places, hexpand,
    fun l hl => honce l (halone.mem_places.mpr hl), fun s j hs => ?_,
    fun l s j hl huniform hanchored => halone.choice_anchor hl huniform hanchored,
    halone.run_walk⟩
  obtain ⟨l, hl, hoccurs⟩ := hoccurs s j hs
  exact ⟨l, halone.mem_places.mp hl, hoccurs⟩

/-! ## In order and out of order -/

/-- Two files, the one of which imports the other one. -/
def nestedLibrary : Library where
  loader := .memory [("s/_a.scss", "@import \"c\";x"), ("s/_c.scss", "z")] [] none 0
  extension := "scss"
  disk := ⟨[], []⟩

/-- A load that imports both. -/
def nestedLoad : Load :=
  ⟨"s/x", "@import \"c\";@import \"a\";q", []⟩

theorem row_nested (s : Site) : nestedLibrary.row [nestedLoad] s =
    if s = .load 0 then
      [(⟨"s/|./_c.scss"⟩, some ⟨"s/_c.scss"⟩), (⟨"s/|./_a.scss"⟩, some ⟨"s/_a.scss"⟩)]
    else if s = .location ⟨"s/_a.scss"⟩ then [(⟨"s/|./_c.scss"⟩, some ⟨"s/_c.scss"⟩)]
    else [] := by
  by_cases hs : s ∈ sites [nestedLoad] [("s/_a.scss", "@import \"c\";x"), ("s/_c.scss", "z")]
  · simp only [sites, List.length_singleton, List.range_one, Table.keys, List.map_cons, List.map_nil,
      List.cons_append, List.nil_append, List.mem_cons, List.not_mem_nil, or_false] at hs
    rcases hs with rfl | rfl | rfl <;> decide +kernel
  · have hsource : nestedLibrary.source? [nestedLoad] s = none :=
      Option.eq_none_iff_forall_not_mem.mpr fun x hx => hs (mem_sites_of_source? hx)
    rw [row, hsource, if_neg, if_neg]
    · rintro rfl
      exact hs (by decide)
    · rintro rfl
      exact hs (by decide)

/-- What is imported first by the load itself is expanded there, whoever fetches it first. -/
theorem inlined_in_order_nested : ∃ below,
    (nestedLibrary.walk [nestedLoad] (.load 0)).run [] = some (("z;;x;q" : Text), below) := by
  have hclean : nestedLibrary.Clean [nestedLoad] :=
    clean_memory (by decide) (by decide) (by decide) (by decide)
  have hsettled : (play nestedLibrary [nestedLoad] 40).inlinings[0]? =
      some ⟨0, .settled (.ok "z;;x;q")⟩ := by decide +kernel
  obtain ⟨chosen, below, -, -, -, -, hwalk⟩ :=
    inlined_in_order hclean (reached_play nestedLibrary [nestedLoad] 40) hsettled
  have hkey : ∀ {s j k l}, nestedLibrary.OccursAs [nestedLoad] s j k l →
      (k = ⟨"s/|./_c.scss"⟩ ∧ l = ⟨"s/_c.scss"⟩) ∨ (k = ⟨"s/|./_a.scss"⟩ ∧ l = ⟨"s/_a.scss"⟩) := by
    intro s j k l h
    rw [occursAs_iff, row_nested] at h
    have hmem := List.mem_of_getElem? h
    split at hmem
    · simpa only [List.mem_cons, Prod.mk.injEq, Option.some.injEq, List.not_mem_nil, or_false]
        using hmem
    · split at hmem
      · refine Or.inl ?_
        simpa only [List.mem_singleton, Prod.mk.injEq, Option.some.injEq] using hmem
      · cases hmem
  refine ⟨below, hwalk fun l hl => ⟨fun s j k s' j' k' _ _ h h' => ?_, .load 0, ?_⟩⟩
  · rcases hkey h with ⟨rfl, rfl⟩ | ⟨rfl, rfl⟩ <;> rcases hkey h' with ⟨rfl, heq⟩ | ⟨rfl, heq⟩
    · rfl
    · exact absurd heq (by decide)
    · exact absurd heq (by decide)
    · rfl
  · have hfirst : nestedLibrary.OccursAs [nestedLoad] (.load 0) 0 ⟨"s/|./_c.scss"⟩ ⟨"s/_c.scss"⟩ :=
      occursAs_iff.mpr (by rw [row_nested]; rfl)
    have hsecond : nestedLibrary.OccursAs [nestedLoad] (.load 0) 1 ⟨"s/|./_a.scss"⟩ ⟨"s/_a.scss"⟩ :=
      occursAs_iff.mpr (by rw [row_nested]; rfl)
    obtain ⟨name, hname, rfl⟩ := mem_files_of_reachable hl
    simp only [Table.keys, List.map_cons, List.map_nil, List.mem_cons, List.not_mem_nil, or_false]
      at hname
    rcases hname with rfl | rfl
    · refine ⟨1, hsecond.occurs, gate_load 0 _, fun j' hj' l' hl' => ?_⟩
      -- The first file imports nothing.
      obtain rfl := Nat.lt_one_iff.mp hj'
      obtain rfl := hl'.eq hfirst.occurs
      intro hleads
      rcases Relation.ReflTransGen.cases_head hleads with heq | ⟨l'', himports, -⟩
      · exact absurd heq (by decide)
      · obtain ⟨raw, hfetch, is, his, i, hi, -⟩ := himports
        cases hfetch
        have hnone : nestedLibrary.imports "s/_c.scss" "z" = .ok [] := by decide +kernel
        rw [hnone] at his
        cases his
        cases hi
    · exact ⟨0, hfirst.occurs, gate_load 0 _, fun j' hj' => absurd hj' (Nat.not_lt_zero j')⟩

/-- Three files, each of which imports the next one. -/
def deepFiles : Table Text Text :=
  [("s/_a.scss", "@import \"b\";x"), ("s/_b.scss", "@import \"c\";y"), ("s/_c.scss", "z")]

def deepLibrary : Library where
  loader := .memory deepFiles [] none 0
  extension := "scss"
  disk := ⟨[], []⟩

/-- A load that imports the first file and the last one. -/
def deepLoad : Load :=
  ⟨"s/x", "@import \"a\";@import \"c\";q", []⟩

/-- A load in the text of which stands a placeholder. -/
def forgedLoad : Load :=
  ⟨"s/x", "\x00s/|./_a.scss\x00@import \"a\";", []⟩

theorem run_walk_deep : (deepLibrary.walk [deepLoad] (.load 0)).run [] =
    some (("z;y;x;;q" : Text), [⟨"s/_a.scss"⟩, ⟨"s/_b.scss"⟩, ⟨"s/_c.scss"⟩]) := by
  have hfetch : ∀ (name raw : Text), Table.get? deepFiles name = some raw →
      deepLibrary.fetch ⟨name⟩ = .ok raw := by
    intro name raw h
    simp only [deepLibrary, fetch, Loader.fetch, h]
  have hloaded : deepLibrary.imports "s/x" "@import \"a\";@import \"c\";q" =
      .ok [⟨⟨"s/|./_a.scss"⟩, "./_a.scss"⟩, ⟨⟨"s/|./_c.scss"⟩, "./_c.scss"⟩] := by decide +kernel
  have hfirst : deepLibrary.imports "s/_a.scss" "@import \"b\";x" =
      .ok [⟨⟨"s/|./_b.scss"⟩, "./_b.scss"⟩] := by decide +kernel
  have hsecond : deepLibrary.imports "s/_b.scss" "@import \"c\";y" =
      .ok [⟨⟨"s/|./_c.scss"⟩, "./_c.scss"⟩] := by decide +kernel
  have hlast : deepLibrary.imports "s/_c.scss" "z" = .ok [] := by decide +kernel
  have hnew : (⟨"s/_c.scss"⟩ : Location) ∉ [⟨"s/_a.scss"⟩, ⟨"s/_b.scss"⟩] := by decide
  have hnew' : (⟨"s/_b.scss"⟩ : Location) ∉ [⟨"s/_a.scss"⟩] := by decide
  have hc : (deepLibrary.walk [deepLoad] (.location ⟨"s/_c.scss"⟩)).run
      [⟨"s/_a.scss"⟩, ⟨"s/_b.scss"⟩, ⟨"s/_c.scss"⟩] =
        some (("z" : Text), [⟨"s/_a.scss"⟩, ⟨"s/_b.scss"⟩, ⟨"s/_c.scss"⟩]) :=
    run_walk_location (hfetch _ _ rfl) hlast rfl
  have hb : (deepLibrary.walk [deepLoad] (.location ⟨"s/_b.scss"⟩)).run
      [⟨"s/_a.scss"⟩, ⟨"s/_b.scss"⟩] =
        some (("z;y" : Text), [⟨"s/_a.scss"⟩, ⟨"s/_b.scss"⟩, ⟨"s/_c.scss"⟩]) :=
    run_walk_location (hfetch _ _ rfl) hsecond
      (run_mapM_cons (run_walkImport_of_not_mem (by decide +kernel) hnew hc) rfl)
  have ha : (deepLibrary.walk [deepLoad] (.location ⟨"s/_a.scss"⟩)).run [⟨"s/_a.scss"⟩] =
      some (("z;y;x" : Text), [⟨"s/_a.scss"⟩, ⟨"s/_b.scss"⟩, ⟨"s/_c.scss"⟩]) :=
    run_walk_location (hfetch _ _ rfl) hfirst
      (run_mapM_cons (run_walkImport_of_not_mem (by decide +kernel) hnew' hb) rfl)
  exact run_walk rfl hloaded
    (run_mapM_cons (run_walkImport_of_not_mem (by decide +kernel) List.not_mem_nil ha)
      (run_mapM_cons (run_walkImport_of_mem (l := ⟨"s/_c.scss"⟩) (by decide +kernel)
        (by decide)) rfl))

/-- The only import of a load, where its text is that of a file without imports. -/
theorem run_walk_single {load : Load} {i : Import} {l : Location} {raw : Text}
    (himports : lib.imports load.address load.text = .ok [i])
    (hfind : lib.find (lib.base load.address) i.file = .ok l) (hfetch : lib.fetch l = .ok raw)
    (hnone : lib.imports l.text raw = .ok []) :
    (lib.walk [load] (.load 0)).run [] =
      some (fill load.text (Directive.scan load.text) [fill raw (Directive.scan raw) []], [l]) :=
  run_walk rfl himports (run_mapM_cons
    (run_walkImport_of_not_mem hfind List.not_mem_nil (run_walk_location hfetch hnone rfl)) rfl)

/-- Without cycles the text of a load may yet be another one than what is met first.  A file that is
imported further down may be fetched only after a directive further on has asked for it; a
placeholder may stand in the source; and a key may be cut at a bar too early. -/
theorem inlined_out_of_order :
    (deepLibrary.Clean [deepLoad] ∧ (∀ a, deepLibrary.Acyclic [deepLoad] a) ∧
      Reached deepLibrary [deepLoad] (play deepLibrary [deepLoad] 60) ∧
      (play deepLibrary [deepLoad] 60).inlinings[0]? = some ⟨0, .settled (.ok ";y;x;z;q")⟩ ∧
      ((deepLibrary.walk [deepLoad] (.load 0)).run []).map Prod.fst = some ("z;y;x;;q" : Text)) ∧
    ((∀ a, smallLibrary.Acyclic [forgedLoad] a) ∧
      Reached smallLibrary [forgedLoad] (play smallLibrary [forgedLoad] 20) ∧
      (play smallLibrary [forgedLoad] 20).inlinings[0]? =
        some ⟨0, .settled (.ok "x\x00s/|./_a.scss\x00;")⟩ ∧
      ((smallLibrary.walk [forgedLoad] (.load 0)).run []).map Prod.fst =
        some ("\x00s/|./_a.scss\x00x;" : Text)) ∧
    (∀ a, barredLibrary.Acyclic barredLoads a) ∧
      Reached barredLibrary barredLoads (play barredLibrary barredLoads 20) ∧
      (play barredLibrary barredLoads 20).inlinings[0]? = some ⟨0, .settled (.ok "wrong;")⟩ ∧
      ((barredLibrary.walk barredLoads (.load 0)).run []).map Prod.fst =
        some ("right;" : Text) := by
  refine ⟨⟨?_, ?_, reached_play .., by decide +kernel, ?_⟩,
    ⟨?_, reached_play .., by decide +kernel, ?_⟩, ?_, reached_play .., by decide +kernel, ?_⟩
  · exact clean_memory (by decide) (by decide) (by decide) (by decide)
  · exact acyclic_memory ["s/x", "s/_a.scss", "s/_b.scss", "s/_c.scss"] (by decide +kernel)
  · rw [run_walk_deep]
    rfl
  · exact acyclic_memory ["s/x", "s/_a.scss"] (by decide +kernel)
  · have hwalk : (smallLibrary.walk [forgedLoad] (.load 0)).run [] = some (_, _) :=
      run_walk_single (i := ⟨⟨"s/|./_a.scss"⟩, "./_a.scss"⟩) (l := ⟨"s/_a.scss"⟩)
        (by decide +kernel) (by decide +kernel) rfl (by decide +kernel)
    rw [hwalk]
    decide +kernel
  · exact acyclic_memory ["a|b/x.scss", "a|b/_c.scss"] (by decide +kernel)
  · have hwalk : (barredLibrary.walk barredLoads (.load 0)).run [] = some (_, _) :=
      run_walk_single (i := ⟨⟨"a|b/|./_c.scss"⟩, "./_c.scss"⟩) (l := ⟨"a|b/_c.scss"⟩)
        (by decide +kernel) (by decide +kernel) rfl (by decide +kernel)
    rw [hwalk]
    decide +kernel

end Resolution

end StyleBatch
