import StyleBatch.Proofs.Pipeline.Delivery
import StyleBatch.Proofs.Resolution.Arranged
import StyleBatch.Proofs.Resolution.Fetches

/-!
# What an import precedes

What is handed over is in the order of leaving, and a location that several loads share is in the
source of its first requester alone.  So it stands before what imports it when the first requester
has left before, or when it has been put in the place of the directive itself or of an earlier one.
Otherwise it may come too late.

* `Pieces.exists_part`: what does not stand behind a directive is in its place or in an earlier one.
* `Resolution.Reached.exists_cut`: a location that a load has requested under the key of a directive
  is in the text up to that.
* `Reached.delivered_of_left`: what was handed in is handed over in the order of leaving.
* `imports_precede`: an import stands before the text that follows its directive.
-/

namespace StyleBatch

open Library Notes Resolution

/-- What is in the rest of a tree stands behind its first directive. -/
theorem NotBehind.rest {rest : Pieces} {s : Site} {j₀ j : Nat} {l : Location} {st : Station}
    (mid : List ((Site × Nat) × Station))
    (h : (((s, j₀), st) :: (mid ++ rest.stations s (j₀ + 1))).Pairwise (NotBehind (s, j₀ + j) l))
    (hl : l ∈ rest.places) :
    ∃ j', j = j' + 1 ∧ (rest.stations s (j₀ + 1)).Pairwise (NotBehind (s, j₀ + 1 + j') l) := by
  rw [List.pairwise_cons, List.pairwise_append] at h
  obtain ⟨hfirst, -, hrest, -⟩ := h
  cases j with
  | zero =>
    obtain ⟨o, ho⟩ := Pieces.mem_places_iff.mp hl
    exact absurd rfl (hfirst (o, .filled l) (List.mem_append_right mid ho) rfl)
  | succ j' => exact ⟨j', rfl, by rwa [Nat.add_right_comm]⟩

/-- What does not stand behind a directive of the tree is in its place or in that of an earlier
one. -/
theorem Pieces.exists_part {p : Pieces} {s : Site} {j₀ j : Nat} {l : Location}
    (h : (p.stations s j₀).Pairwise (NotBehind (s, j₀ + j) l)) (hl : l ∈ p.places)
    (hj : j < p.parts.length) : ∃ m ≤ j, ∃ part, p.parts[m]? = some part ∧ l ∈ part.2 := by
  induction p generalizing j₀ j with
  | nil => cases hl
  | text t rest ih => exact ih h hl hj
  | hole k rest ih | cleared rest ih =>
    obtain ⟨j', rfl, h'⟩ := NotBehind.rest [] h hl
    obtain ⟨m, hm, part, hpart⟩ := ih h' hl (Nat.lt_of_succ_lt_succ hj)
    exact ⟨m + 1, Nat.succ_le_succ hm, part, hpart⟩
  | filled l' inner rest _ ih =>
    by_cases hrest : l ∈ rest.places
    · obtain ⟨j', rfl, h'⟩ := NotBehind.rest _ h hrest
      obtain ⟨m, hm, part, hpart⟩ := ih h' hrest (Nat.lt_of_succ_lt_succ hj)
      exact ⟨m + 1, Nat.succ_le_succ hm, part, hpart⟩
    · refine ⟨0, Nat.zero_le j, _, rfl, ?_⟩
      rw [Pieces.places, List.mem_cons, List.mem_append] at hl
      rw [List.mem_cons]
      tauto

/-- A source with texts in the place of its directives, cut behind one of these. -/
def Directive.Cut (source : Text) (ts : List Text) (j : Nat) (front rest : Text) : Prop :=
  ∃ us filler quote specifier vs u,
    Directive.parts source = us ++ .directive filler quote specifier :: vs ∧
      (Lexeme.directives 0 us).length = j ∧ ts[j]? = some u ∧
      front = Lexeme.weave us (ts.take j) ++ u ∧ rest = Lexeme.weave vs (ts.drop (j + 1))

/-- Where the text of a source, with something in the place of each directive, comes after another
text, that text and what goes up to the directive have the text of a location. -/
def Precedes (raw source : Text) (j : Nat) (before text : Text) : Prop :=
  ∃ ts front rest, ts.length = (Directive.scan source).length ∧
    Directive.Cut source ts j front rest ∧ text = front ++ rest ∧ Carries (before ++ front) raw

theorem Precedes.isInfix {raw source before text : Text} {j : Nat}
    (h : Precedes raw source j before text) (hscan : Directive.scan raw = []) (after : Text) :
    raw <:+: before ++ text ++ after := by
  obtain ⟨ts, front, rest, -, -, rfl, hcarries⟩ := h
  refine (hcarries.isInfix hscan).trans ⟨[], rest ++ after, ?_⟩
  simp

/-- Where the text that follows the first directive is only found at the beginning, nothing stands
before it. -/
theorem Precedes.carries_nil {raw source before text after w : Text}
    (h : Precedes raw source 0 before text) {filler specifier : Text} {quote : Char}
    {vs : List Lexeme} (hparts : Directive.parts source = .directive filler quote specifier :: vs)
    (hw : ∀ ts, w <+: Lexeme.weave vs ts) (honly : ¬w <:+: (before ++ text ++ after).tail) :
    Carries [] raw := by
  obtain ⟨ts, front, rest, -, ⟨us, _, _, _, vs', u, hparts', hus, -, -, rfl⟩, rfl, hcarries⟩ := h
  rw [hparts] at hparts'
  obtain rfl : vs = vs' := by
    cases us with
    | nil => exact (List.cons.inj hparts').2
    | cons lexeme us =>
      obtain ⟨rfl, -⟩ := List.cons.inj hparts'
      cases hus
  cases hbefore : before ++ front with
  | nil => rwa [hbefore] at hcarries
  | cons c t =>
    obtain ⟨w', hw'⟩ := hw (ts.drop (0 + 1))
    refine absurd ⟨t, w' ++ after, ?_⟩ honly
    rw [← List.append_assoc before, hbefore, ← hw']
    simp

namespace Resolution

variable {lib : Library} {loads : List Load} {r : Resolution}

/-- The text of a load that has succeeded, cut behind a directive.  A location that the load has
requested first, and under the key of the directive or of an earlier one, is in front. -/
theorem Reached.exists_cut (h : Reached lib loads r) (hclean : lib.Clean loads) {i n : Nat}
    {text : Text} (hi : r.inlinings[i]? = some ⟨n, .settled (.ok text)⟩) {load : Load}
    (hload : loads[n]? = some load) {j : Nat} {l : Location}
    (hl : lib.Occurs loads (.load n) j l) :
    ∃ ts front rest, ts.length = (Directive.scan load.text).length ∧
      Directive.Cut load.text ts j front rest ∧ text = front ++ rest ∧
      ∀ t raw, r.location? l = some t → Entered r n l → lib.fetch l = .ok raw →
        (∃ j' ≤ j, lib.OccursAs loads (.load n) j' t.key l) → Carries front raw := by
  have hplain := hclean.barless.plain
  have hn : Succeeded r n := ⟨i, text, hi⟩
  have hf := h.sound.faultless_of_succeeded hn
  obtain ⟨p, htraced, harranged⟩ := h.exists_arranged hclean hload hf
  obtain ⟨is, himports, hgrown⟩ := htraced.grown load hn.staged hload
  have hsource : lib.source? loads (.load n) = some (load.address, load.text) := by
    rw [source?, hload, Option.map_some]
  have htext : text = p.render := by
    rw [← h.text_of_settled hplain hf hi, htraced.render hn.staged]
  have hlength := hgrown.render_eq.1
  have hj : j < p.parts.length := by
    rw [length_parts hgrown]
    exact hl.lt_length hsource himports
  obtain ⟨u, hu⟩ : ∃ u, (p.parts.map Prod.fst)[j]? = some u :=
    ⟨_, List.getElem?_eq_getElem (by rwa [List.length_map])⟩
  obtain ⟨us, filler, quote, specifier, vs, hparts, hus, hweave⟩ :=
    Lexeme.exists_cut (Directive.scan_eq load.text ▸ hlength) hu
  rw [weave_parts hgrown, ← htext] at hweave
  refine ⟨p.parts.map Prod.fst, _, _, hlength,
    ⟨us, filler, quote, specifier, vs, u, hparts, hus, hu, rfl, rfl⟩, hweave, ?_⟩
  rintro t raw ht hentered hfetch ⟨j', hj', hkey⟩
  have hpairwise := harranged.first (.load n, j') t.key l hkey (gate_load n l) fun t' ht' => by
    rw [ht] at ht'
    cases ht'
    rfl
  rw [← Nat.zero_add j'] at hpairwise
  obtain ⟨m, hm, part, hpart, hlpart⟩ :=
    Pieces.exists_part hpairwise ((htraced.mem_places l).mpr hentered) (hj'.trans_lt hj)
  obtain ⟨ts, hts, hinfix⟩ := hgrown.carries_part hfetch (List.mem_of_getElem? hpart) hlpart
  refine ⟨ts, hts, hinfix.trans ?_⟩
  -- The part is the directive's own or one that is woven before it.
  have hfst : (p.parts.map Prod.fst)[m]? = some part.1 := by rw [List.getElem?_map, hpart]; rfl
  rcases (hm.trans hj').eq_or_lt with rfl | hlt
  · rw [hfst] at hu
    cases hu
    exact (List.suffix_append ..).isInfix
  · have htake : ((p.parts.map Prod.fst).take j).length = (Lexeme.directives 0 us).length := by
      rw [hus, List.length_take, List.length_map, min_eq_left hj.le]
    have hmem : part.1 ∈ (p.parts.map Prod.fst).take j := by
      refine List.mem_of_getElem? (i := m) ?_
      rw [List.getElem?_take_of_lt hlt, hfst]
    exact (Lexeme.infix_weave htake hmem).trans (List.prefix_append ..).isInfix

end Resolution

namespace Pipeline

variable {setup : Setup} {allowed : Disk → Prop} {loads : List Load} {notes : List Note}
  {p : Pipeline}

/-- When the batch of a load has been closed, what the load handed in stands behind all that was
handed in before. -/
theorem Reached.delivered_of_left (h : Reached setup allowed loads notes p)
    {past future : List Note} {i : Nat} {c : Contribution} {closed : Option ClosedBatch}
    (heq : notes = past ++ .left i c closed :: future) {batch : ClosedBatch}
    (hjoined : .joined i batch.epoch ∈ notes) (hbatch : batch ∈ handedOver notes) :
    ∃ after, Notes.delivered notes = handed past ++ c.text ++ after := by
  obtain ⟨m, c', hclose⟩ := mem_handedOver.mp hbatch
  obtain ⟨before, late, hsplit⟩ := List.append_of_mem hclose
  -- Closing takes all along that was handed in so far.
  have hsofar : Notes.delivered (before ++ [.left m c' (some batch)]) =
      handed (before ++ [.left m c' (some batch)]) := by
    obtain ⟨_, q, _, _, hq, hmove⟩ := h.exists_of_note hsplit
    obtain ⟨htaken, -⟩ := hmove.of_left
    have hsource : batch.source = q.batching.batch.buffer ++ c'.text := by
      rw [Ledger.leave_eq] at htaken
      split at htaken
      · cases htaken
        rfl
      · cases htaken
    have hlast : Notes.delivered [.left m c' (some batch)] = batch.source :=
      List.flatMap_singleton ..
    have hlast' : handed [.left m c' (some batch)] = c'.text := List.flatMap_singleton ..
    rw [delivered_append, handed_append, hlast, hlast', hsource, ← List.append_assoc,
      hq.delivered.sources]
  -- The load has left by then.
  have hleft : i ∈ leavers (before ++ [.left m c' (some batch)]) := by
    obtain ⟨-, e, -, hlast, hsource⟩ := h.left hsplit
    obtain ⟨rfl, -⟩ := hsource batch rfl
    rw [leavers_append, List.mem_append]
    rcases hlast.mp rfl i (mem_joinersOf.mpr hjoined) with rfl | hi
    · exact Or.inr List.mem_cons_self
    · exact Or.inl hi
  have hprefix : past ++ [.left i c closed] <+: before ++ [.left m c' (some batch)] := by
    have hfirst : past ++ [.left i c closed] <+: notes :=
      ⟨future, by rw [heq, List.append_assoc, List.singleton_append]⟩
    have hsecond : before ++ [.left m c' (some batch)] <+: notes :=
      ⟨late, by rw [hsplit, List.append_assoc, List.singleton_append]⟩
    rcases List.prefix_or_prefix_of_prefix hfirst hsecond with hle | hle
    · exact hle
    · rcases List.prefix_concat_iff.mp hle with hsame | ⟨more, rfl⟩
      · exact hsame ▸ List.prefix_rfl
      · have hnot := (h.left heq).1
        rw [leavers_append] at hnot
        exact absurd (List.mem_append_left _ hleft) hnot
  obtain ⟨between, hbetween⟩ := hprefix
  have hown : handed [.left i c closed] = c.text := List.flatMap_singleton ..
  refine ⟨handed between ++ Notes.delivered late, ?_⟩
  rw [hsplit, ← List.singleton_append, ← List.append_assoc, delivered_append, hsofar, ← hbetween,
    handed_append, handed_append, hown, List.append_assoc]

/-- When the batch of a complete load has been closed, what the load has left stands in what is
handed over, in the order of closing, behind all that was left before.  The text of the location that
a directive of the load leads to comes before what follows the directive, if the load that requested
the location first has left earlier, or if it is the load itself and has requested it under the key
of the directive or of an earlier one. -/
theorem imports_precede (hclean : setup.library.Clean loads)
    (h : Reached setup setup.library.SameOn loads notes p) {i : Nat} {load : Load} {source : Text}
    {closed : Option ClosedBatch} {batch : ClosedBatch} {past future : List Note}
    (hload : loads[i]? = some load)
    (heq : notes = past ++ .left i (.source source) closed :: future)
    (hjoined : .joined i batch.epoch ∈ notes) (hbatch : batch ∈ handedOver notes) {j : Nat}
    {l : Location} (hl : setup.library.Occurs loads (.load i) j l) :
    ∃ raw t after, setup.library.fetch l = .ok raw ∧ p.resolution.location? l = some t ∧
      delivered notes = handed past ++ source ++ after ∧
      ((∃ source' closed', .left t.load (.source source') closed' ∈ past) ∨
          (t.load = i ∧ ∃ j' ≤ j, setup.library.OccursAs loads (.load i) j' t.key l) →
        Precedes raw load.text j (handed past) source) := by
  have hplain := hclean.barless.plain
  have hleft : .left i (.source source) closed ∈ notes := by simp [heq]
  have hreachable : setup.library.Reachable [load] l := by
    obtain ⟨address, text, is, x, hsource, himports, hx, hfind⟩ := hl
    rw [source?, hload] at hsource
    cases hsource
    exact .direct List.mem_cons_self ⟨is, himports, x, List.mem_of_getElem? hx, hfind⟩
  obtain ⟨t, text, ht, hphase, -⟩ := h.owner hplain hload hjoined hleft hreachable
  have ho : locationOutcome? p.resolution l = some (.ok text) :=
    locationOutcome?_eq_some.mpr ⟨t, ht, hphase⟩
  have hentered : Entered p.resolution t.load l := ⟨t, ht, rfl, by rw [hphase]; rfl⟩
  obtain ⟨raw, hfetch, -⟩ := h.resolution.sound.finished_of_outcome ht ho
  obtain ⟨k, hk⟩ := h.linked.left i _ closed hleft
  obtain ⟨ts, front, rest, hlength, hcut, hsource, hown⟩ :=
    h.resolution.exists_cut hclean hk hload hl
  obtain ⟨after, hafter⟩ := h.delivered_of_left heq hjoined hbatch
  refine ⟨raw, t, after, hfetch, ht, hafter, fun hfirst =>
    ⟨ts, front, rest, hlength, hcut, hsource, ?_⟩⟩
  rcases hfirst with ⟨source', closed', hearlier⟩ | ⟨rfl, hkey⟩
  · have hleft' : .left t.load (.source source') closed' ∈ notes := by simp [heq, hearlier]
    obtain ⟨k', hk'⟩ := h.linked.left t.load _ closed' hleft'
    obtain ⟨raw', hfetch', ts', hts', hinfix⟩ := h.resolution.carries hclean hk' hentered
    rw [hfetch] at hfetch'
    cases hfetch'
    have hhanded : source' <:+: handed past := by
      rw [handed, List.flatMap_def]
      exact List.infix_of_mem_flatten (List.mem_map.mpr ⟨_, hearlier, rfl⟩)
    exact ⟨ts', hts', hinfix.trans (hhanded.trans (List.prefix_append ..).isInfix)⟩
  · obtain ⟨ts', hts', hinfix⟩ := hown t raw ht hentered hfetch hkey
    exact ⟨ts', hts', hinfix.trans (List.suffix_append ..).isInfix⟩

/-! ## In time and too late -/

/-- Two files, one of which loads share. -/
def timelySetup : Setup :=
  echoSetup [("s/_a.scss", "x"), ("s/_b.scss", "z")]

/-- A load that shares an import with an earlier one, and has one for itself. -/
def timelyLoads : List (Load × Nat) :=
  [(⟨"s/x", "@import \"a\";", []⟩, 0), (⟨"s/y", "@import \"a\";@import \"b\";y", []⟩, 30)]

/-- Both stand before what follows them. -/
theorem imports_precede_timely :
    let run := play timelySetup timelyLoads 60
    handedOver run.1 = [⟨1, 1, "x;"⟩, ⟨2, 1, ";z;y"⟩] ∧
      Precedes "x" "@import \"a\";@import \"b\";y" 0 "x;" ";z;y" ∧
      Precedes "z" "@import \"a\";@import \"b\";y" 1 "x;" ";z;y" := by
  intro run
  have hclean : timelySetup.library.Clean (timelyLoads.map Prod.fst) :=
    Library.clean_memory (by decide) (by decide) (by decide) (by decide)
  have hreached : Reached timelySetup timelySetup.library.SameOn (timelyLoads.map Prod.fst) run.1
      run.2 := reached_play _ _ (fun _ => ⟨fun _ => rfl, fun _ => rfl⟩) 60
  have hover : handedOver run.1 = [⟨1, 1, "x;"⟩, ⟨2, 1, ";z;y"⟩] := by decide +kernel
  have hload : (timelyLoads.map Prod.fst)[1]? =
      some ⟨"s/y", "@import \"a\";@import \"b\";y", []⟩ := rfl
  have heq : run.1 = run.1.take 5 ++
      .left 1 (.source ";z;y") (some ⟨2, 1, ";z;y"⟩) :: run.1.drop 6 := by decide +kernel
  have hjoined : .joined 1 (ClosedBatch.mk 2 1 ";z;y").epoch ∈ run.1 := by decide +kernel
  have hbatch : ⟨2, 1, ";z;y"⟩ ∈ handedOver run.1 := by
    rw [hover]
    decide
  have hshared : timelySetup.library.OccursAs (timelyLoads.map Prod.fst) (.load 1) 0
      ⟨"s/|./_a.scss"⟩ ⟨"s/_a.scss"⟩ := occursAs_iff.mpr (by decide +kernel)
  have hown : timelySetup.library.OccursAs (timelyLoads.map Prod.fst) (.load 1) 1
      ⟨"s/|./_b.scss"⟩ ⟨"s/_b.scss"⟩ := occursAs_iff.mpr (by decide +kernel)
  have hpast : handed (run.1.take 5) = "x;" := by decide +kernel
  refine ⟨hover, ?_, ?_⟩
  · obtain ⟨raw, t, after, hfetch, ht, -, hprecedes⟩ :=
      imports_precede hclean hreached hload heq hjoined hbatch hshared.occurs
    cases hfetch
    have hfirst : (run.2.resolution.location? ⟨"s/_a.scss"⟩).map LocationTask.load = some 0 := by
      decide +kernel
    rw [ht, Option.map_some, Option.some.injEq] at hfirst
    refine hpast ▸ hprecedes (Or.inl ⟨"x;", some ⟨1, 1, "x;"⟩, ?_⟩)
    rw [hfirst]
    decide +kernel
  · obtain ⟨raw, t, after, hfetch, ht, -, hprecedes⟩ :=
      imports_precede hclean hreached hload heq hjoined hbatch hown.occurs
    cases hfetch
    have hfirst : (run.2.resolution.location? ⟨"s/_b.scss"⟩).map
        (fun t => (t.load, t.key)) = some (1, ⟨"s/|./_b.scss"⟩) := by decide +kernel
    rw [ht, Option.map_some, Option.some.injEq, Prod.mk.injEq] at hfirst
    exact hpast ▸ hprecedes (Or.inr ⟨hfirst.1, 1, le_rfl, hfirst.2 ▸ hown⟩)

/-- All loads of the run succeed, and an import of one of them does not stand before what follows it
there. -/
def ComesLate (setup : Setup) (loads : List (Load × Nat)) (run : List Note × Pipeline) : Prop :=
  Reached setup (fun _ => True) (loads.map Prod.fst) run.1 run.2 ∧ run.2.disk = setup.disk ∧
    (∀ i < loads.length, ∃ source closed, .left i (.source source) closed ∈ run.1) ∧
    ∃ i load j l raw source closed, (loads.map Prod.fst)[i]? = some load ∧
      setup.library.Occurs (loads.map Prod.fst) (.load i) j l ∧ setup.library.fetch l = .ok raw ∧
      .left i (.source source) closed ∈ run.1 ∧
      ∀ before after, delivered run.1 = before ++ source ++ after →
        ¬Precedes raw load.text j before source

/-- Files one of which is imported by another one. -/
def lateSetup : Setup :=
  echoSetup [("s/_a.scss", "x"), ("s/_b.scss", "@import \"c\";"), ("s/_c.scss", "z")]

/-- Two loads in one batch, the first of which takes longer. -/
def lateLoads : List (Load × Nat) :=
  [(⟨"s/x", "@import \"a\";@import \"b\";p", []⟩, 0), (⟨"s/y", "@import \"a\";y", []⟩, 0)]

theorem comesLate_shared : ComesLate lateSetup lateLoads (play lateSetup lateLoads 60) := by
  refine ⟨reached_play _ _ (fun _ => trivial) 60, by decide +kernel, fun i hi => ?_, 1, _, 0,
    ⟨"s/_a.scss"⟩, "x", ";y", none, rfl, ?_, rfl, by decide +kernel,
    fun before after hall h => ?_⟩
  · match i, hi with
    | 0, _ => exact ⟨"x;z;;p", some ⟨1, 2, ";yx;z;;p"⟩, by decide +kernel⟩
    | 1, _ => exact ⟨";y", none, by decide +kernel⟩
  · exact (occursAs_iff (k := ⟨"s/|./_a.scss"⟩).mpr (by decide +kernel)).occurs
  · have hdelivered : delivered (play lateSetup lateLoads 60).1 = ";yx;z;;p" := by decide +kernel
    rw [hdelivered] at hall
    have hparts : Directive.parts "@import \"a\";y" =
      [.directive " " '"' "a", .plain ";", .plain "y"] := by decide +kernel
    have honly : ¬(";y" : Text) <:+: (before ++ ";y" ++ after).tail := by
      rw [← hall]
      decide
    have hnil : Carries [] "x" := h.carries_nil hparts (fun ts => ⟨[], rfl⟩) honly
    exact absurd (hnil.isInfix (by decide +kernel)) (by decide)

/-- A file on disk that is looked up under its full name in one step, and otherwise in two. -/
def probingSetup : Setup :=
  { echoSetup [] with
    loader := .disk "/r"
    disk := ⟨["r"], [(["r"], .directory), (["r", "foo.scss"], .file [120])]⟩ }

def probingLoads : List (Load × Nat) :=
  [(⟨"x", "@import \"foo\";p@import \"foo.scss\";", []⟩, 0)]

theorem comesLate_probed :
    ComesLate probingSetup probingLoads (play probingSetup probingLoads 60) := by
  refine ⟨reached_play _ _ (fun _ => trivial) 60, by decide +kernel, fun i hi => ?_, 0, _, 0,
    ⟨"file:/r/foo.scss"⟩, "x", ";px;", some ⟨1, 1, ";px;"⟩, rfl, ?_, by decide +kernel,
    by decide +kernel, fun before after hall h => ?_⟩
  · obtain rfl : i = 0 := Nat.lt_one_iff.mp hi
    exact ⟨";px;", some ⟨1, 1, ";px;"⟩, by decide +kernel⟩
  · exact (occursAs_iff (k := ⟨"/|./_foo.scss"⟩).mpr (by decide +kernel)).occurs
  · have hdelivered : delivered (play probingSetup probingLoads 60).1 = ";px;" := by decide +kernel
    rw [hdelivered] at hall
    have hparts : Directive.parts "@import \"foo\";p@import \"foo.scss\";" =
      [.directive " " '"' "foo", .plain ";", .plain "p", .directive " " '"' "foo.scss",
        .plain ";"] := by decide +kernel
    have honly : ¬(";p" : Text) <:+: (before ++ ";px;" ++ after).tail := by
      rw [← hall]
      decide
    have hnil : Carries [] "x" := h.carries_nil (w := ";p") hparts (fun ts => ⟨_, rfl⟩) honly
    exact absurd (hnil.isInfix (by decide +kernel)) (by decide)

/-- A file in the text of which stands a placeholder. -/
def forgedSetup : Setup :=
  echoSetup [("s/_a.scss", "x\x00s/|./_b.scss\x00"), ("s/_b.scss", "z")]

def forgedLoads : List (Load × Nat) :=
  [(⟨"s/x", "@import \"a\";@import \"b\";p", []⟩, 0)]

theorem comesLate_forged : ComesLate forgedSetup forgedLoads (play forgedSetup forgedLoads 60) := by
  refine ⟨reached_play _ _ (fun _ => trivial) 60, by decide +kernel, fun i hi => ?_, 0, _, 0,
    ⟨"s/_a.scss"⟩, "x\x00s/|./_b.scss\x00", "xz;\x00s/|./_b.scss\x00;p",
    some ⟨1, 1, "xz;\x00s/|./_b.scss\x00;p"⟩, rfl, ?_, rfl, by decide +kernel,
    fun before after hall h => ?_⟩
  · obtain rfl : i = 0 := Nat.lt_one_iff.mp hi
    exact ⟨"xz;\x00s/|./_b.scss\x00;p", some ⟨1, 1, "xz;\x00s/|./_b.scss\x00;p"⟩,
      by decide +kernel⟩
  · exact (occursAs_iff (k := ⟨"s/|./_a.scss"⟩).mpr (by decide +kernel)).occurs
  · have hinfix := h.isInfix (by decide +kernel) after
    rw [← hall] at hinfix
    exact absurd hinfix (by decide +kernel)

/-- Files to which a base path with a bar leads. -/
def barredSetup : Setup :=
  echoSetup [("a|b/_c.scss", "right"), ("a./_c.scss", "wrong")]

theorem comesLate_barred : ComesLate barredSetup (barredLoads.map (·, 0))
    (play barredSetup (barredLoads.map (·, 0)) 60) := by
  refine ⟨reached_play _ _ (fun _ => trivial) 60, by decide +kernel, fun i hi => ?_, 0, _, 0,
    ⟨"a|b/_c.scss"⟩, "right", "wrong;", some ⟨1, 1, "wrong;"⟩, rfl, ?_, rfl, by decide +kernel,
    fun before after hall h => ?_⟩
  · obtain rfl : i = 0 := Nat.lt_one_iff.mp hi
    exact ⟨"wrong;", some ⟨1, 1, "wrong;"⟩, by decide +kernel⟩
  · exact (occursAs_iff (k := ⟨"a|b/|./_c.scss"⟩).mpr (by decide +kernel)).occurs
  · have hinfix := h.isInfix (by decide +kernel) after
    rw [← hall] at hinfix
    exact absurd hinfix (by decide +kernel)

/-- An import may come too late: when the load that has requested it first leaves later, and when
the load itself has requested it first under the key of a later directive.  A placeholder in a file,
and a key that is cut at a bar, bring another text altogether. -/
theorem imports_come_late :
    ComesLate lateSetup lateLoads (play lateSetup lateLoads 60) ∧
      ComesLate probingSetup probingLoads (play probingSetup probingLoads 60) ∧
      ComesLate forgedSetup forgedLoads (play forgedSetup forgedLoads 60) ∧
      ComesLate barredSetup (barredLoads.map (·, 0))
        (play barredSetup (barredLoads.map (·, 0)) 60) :=
  ⟨comesLate_shared, comesLate_probed, comesLate_forged, comesLate_barred⟩

end Pipeline

end StyleBatch
