import StyleBatch.Proofs.Pipeline.Epochs
import StyleBatch.Proofs.Pipeline.Fate
import StyleBatch.Proofs.Pipeline.Sweep

/-!
# Loads that are compiled together

When loads are submitted together, none of them fails and each of them pauses before it leaves, they
are one batch, and its source is what all of them have inlined, in the order in which they left.
Without that pause a load may leave before the next one has joined.

* `Linked.endsIn_unique`: an inlining ends in one way.
* `Run.member`: what is noted about a load that has answered with a text.
* `polledTogether_runLoads`: polling in turn until nothing moves.
* `compiled_together`: one epoch, one compile.
* `compiled_apart`: two loads that are compiled one by one.
-/

namespace StyleBatch.Pipeline

open Notes Resolution

variable {setup : Setup} {acts : List Act} {loads : List Load} {notes : List Note} {p : Pipeline}
  {i e : Nat}

/-- An inlining ends in one way. -/
theorem Linked.endsIn_unique {count : Nat} (h : Linked count notes p) {o o' : Outcome}
    (ho : EndsIn p.resolution i o) (ho' : EndsIn p.resolution i o') : o = o' := by
  obtain ⟨k, hk⟩ := ho
  obtain ⟨k', hk'⟩ := ho'
  have hmap : (p.resolution.inlinings.map Inlining.load)[k]? = some i := by
    rw [List.getElem?_map, hk]
    rfl
  have hmap' : (p.resolution.inlinings.map Inlining.load)[k']? = some i := by
    rw [List.getElem?_map, hk']
    rfl
  have hlt := (List.getElem?_eq_some_iff.mp hmap).1
  obtain rfl := (List.getElem?_inj hlt h.nodup).mp (hmap.trans hmap'.symm)
  rw [hk] at hk'
  cases hk'
  rfl

/-- A member of a batch that has answered with a text in the authoritative process: it has left with
the source that it had inlined, and has called the compiler if it has taken the batch along. -/
theorem Run.member (h : Run setup acts)
    (hauthoritative : setup.config.environment.authoritative = true)
    (hjoined : .joined i e ∈ setup.notes acts) {t : Text}
    (ho : (setup.after acts).outcome? i = some (.ok t)) :
    ∃ source closed own, EndsIn (setup.after acts).resolution i (.ok source) ∧
      about i (setup.notes acts) = .joined i e :: .left i (.source source) closed :: own ∧
      called own = (closed.map ClosedBatch.source).toList := by
  obtain ⟨e', d, text, rest, heq, ho, hfate⟩ := h.fate_of_outcome ho hjoined rfl nofun
  have hjoined' : .joined i e' ∈ setup.notes acts := mem_of_about heq List.mem_cons_self
  obtain rfl := h.reached.chronicle.ledger.epoch_unique hjoined hjoined'
  rw [answerOf] at ho
  cases hc : d.contribution with
  | failure fault =>
    rw [hc] at ho
    cases ho
  | source source =>
    rw [hc] at hfate
    have hends : ∀ {closed own}, rest = .left i (.source source) closed :: own →
        EndsIn (setup.after acts).resolution i (.ok source) := by
      rintro closed own rfl
      have hleft : .left i (.source source) closed ∈ setup.notes acts :=
        mem_of_about heq (by simp)
      exact h.reached.linked.left i _ closed hleft
    generalize Storing.about i (setup.storings acts) = stored at hfate
    generalize hphase : DeparturePhase.settled text = phase at hfate
    cases hfate with
    | queued | compiling => cases hphase
    | @left closed hclosed =>
      cases closed with
      | none => exact ⟨source, none, [], hends rfl, heq, rfl⟩
      | some closed => cases hclosed
    | skipped _ hfollower =>
      rw [hauthoritative] at hfollower
      cases hfollower
    | @compiled closed result own _ _ hx =>
      refine ⟨source, some closed, own, hends rfl, heq, ?_⟩
      obtain ⟨answer, rfl⟩ := hx.answered
      rfl

/-! ## Notes of one batch -/

/-- If one load has called the compiler, it is all there is about that. -/
theorem called_about (h : ∀ j source, .called j source ∈ notes → j = i) :
    called notes = called (about i notes) := by
  rw [called, called, about, List.filterMap_filter]
  refine List.filterMap_congr fun x hx => ?_
  cases x with
  | called j source =>
    rw [if_pos]
    exact decide_eq_true (h j source hx)
  | _ => simp

/-- There is a last one to leave. -/
theorem exists_last_left (h : leavers notes ≠ []) : ∃ before i c closed after,
    notes = before ++ .left i c closed :: after ∧ leavers after = [] := by
  induction notes using List.reverseRecOn with
  | nil => exact absurd rfl h
  | append_singleton notes x ih =>
    rw [leavers_append] at h
    cases hx : leavers [x] with
    | nil =>
      rw [hx, List.append_nil] at h
      obtain ⟨before, i, c, closed, after, rfl, hafter⟩ := ih h
      refine ⟨before, i, c, closed, after ++ [x], by simp, ?_⟩
      rw [leavers_append, hafter, hx]
      rfl
    | cons i rest =>
      cases x with
      | left i c closed => exact ⟨notes, i, c, closed, [], rfl, rfl⟩
      | _ => cases hx

/-- What is handed in when all are complete and of one epoch: their sources, in the order in which
they left. -/
theorem handedIn_eq {texts : Nat → Text} (h : ∀ i c closed, .left i c closed ∈ notes →
    c = .source (texts i) ∧ .joined i e ∈ notes) :
    handedIn e notes = (leavers notes).flatMap texts := by
  have hmore : ∀ (f : Note → Text) (more : List Note),
      (∀ x ∈ more, f x = (leavers [x]).flatMap texts) →
      more.flatMap f = (leavers more).flatMap texts := by
    intro f more hf
    induction more with
    | nil => rfl
    | cons x more ih =>
      rw [List.flatMap_cons, hf x List.mem_cons_self,
        ih fun y hy => hf y (List.mem_cons_of_mem _ hy), ← List.flatMap_append, ← leavers_append]
      rfl
  refine hmore _ notes fun x hx => ?_
  cases x with
  | left i c closed =>
    obtain ⟨rfl, hjoined⟩ := h i c closed hx
    simp [leavers, hjoined]
  | _ => rfl

/-! ## One epoch, one compile -/

/-- The loads have joined one epoch before the first of them left, and the compiler was called once,
on what all of them have inlined, in the order in which they left. -/
def CompiledOnce (setup : Setup) (loads : List Load) (p : Pipeline) : Prop :=
  ∃ acts rest, Run setup acts ∧ setup.after acts = p ∧ submissions acts = loads ∧
    setup.notes acts = joinedFirst loads.length ++ rest ∧ joiners rest = [] ∧
    (leavers rest).Perm (List.range loads.length) ∧
    ∃ texts : Nat → Text, (∀ i < loads.length, EndsIn p.resolution i (.ok (texts i))) ∧
      p.batching.workshop.compiler.calls =
        setup.compiler.calls ++ [(leavers rest).flatMap texts]

/-- All loads of a run have joined the first epoch and have answered with a text; `texts` is what they
have inlined. -/
structure Complete (setup : Setup) (acts : List Act) (texts : Nat → Text) : Prop where
  run : Run setup acts
  authoritative : setup.config.environment.authoritative = true
  joiners : joiners (setup.notes acts) = List.range (submissions acts).length
  joined : ∀ i < (submissions acts).length, .joined i 1 ∈ setup.notes acts
  member : ∀ i < (submissions acts).length, ∃ closed own,
    EndsIn (setup.after acts).resolution i (.ok (texts i)) ∧
      about i (setup.notes acts) = .joined i 1 :: .left i (.source (texts i)) closed :: own ∧
      called own = (closed.map ClosedBatch.source).toList

namespace Complete

variable {texts : Nat → Text}

theorem lt_length (h : Complete setup acts texts) {x : Note} (hx : x ∈ setup.notes acts) :
    x.subject < (submissions acts).length := by
  rw [← h.run.reached.linked.length_jobs]
  exact h.run.reached.chronicle.subject_lt hx

/-- Who has left has brought what it has inlined. -/
theorem left (h : Complete setup acts texts) {c : Contribution} {closed : Option ClosedBatch}
    (hleft : .left i c closed ∈ setup.notes acts) :
    c = .source (texts i) ∧ .joined i 1 ∈ setup.notes acts := by
  have hi := h.lt_length hleft
  obtain ⟨-, -, hends, -⟩ := h.member i hi
  have hlinked := h.run.reached.linked
  have hsame := hlinked.endsIn_unique (hlinked.left i c closed hleft) hends
  refine ⟨?_, h.joined i hi⟩
  cases c <;> cases hsame
  rfl

theorem epoch (h : Complete setup acts texts) {c : Contribution} {batch : ClosedBatch}
    (hleft : .left i c (some batch) ∈ setup.notes acts) : batch.epoch = 1 := by
  have hledger := h.run.reached.chronicle.ledger
  obtain ⟨before, after, heq⟩ := List.append_of_mem hleft
  obtain ⟨-, e, hbefore, -, hbatch⟩ := h.run.reached.left heq
  rw [(hbatch batch rfl).1]
  exact hledger.epoch_unique (heq ▸ List.mem_append_left _ hbefore) (h.left hleft).2

/-- All loads have left. -/
theorem perm_leavers (h : Complete setup acts texts) :
    (leavers (setup.notes acts)).Perm (List.range (submissions acts).length) := by
  have hledger := h.run.reached.chronicle.ledger
  rw [List.perm_ext_iff_of_nodup hledger.nodup_leavers List.nodup_range]
  intro i
  constructor
  · intro hi
    obtain ⟨c, closed, hleft⟩ := mem_leavers.mp hi
    exact List.mem_range.mpr (h.lt_length hleft)
  · intro hi
    obtain ⟨closed, own, -, hown, -⟩ := h.member i (List.mem_range.mp hi)
    exact mem_leavers.mpr ⟨.source (texts i), closed, mem_of_about hown (by simp)⟩

/-- The last one to leave takes all of them along. -/
theorem exists_closing (h : Complete setup acts texts) (hne : leavers (setup.notes acts) ≠ []) :
    ∃ i c batch, .left i c (some batch) ∈ setup.notes acts ∧
      batch.source = (leavers (setup.notes acts)).flatMap texts := by
  obtain ⟨before, i, c, closed, after, heq, hafter⟩ := exists_last_left hne
  have hleft : .left i c closed ∈ setup.notes acts :=
    heq ▸ List.mem_append_right _ List.mem_cons_self
  obtain ⟨-, e, hbefore, hlast, hbatch⟩ := h.run.reached.left heq
  obtain rfl := h.run.reached.chronicle.ledger.epoch_unique
    (heq ▸ List.mem_append_left _ hbefore) (h.left hleft).2
  have hsome : closed.isSome := by
    refine hlast.mpr fun j hj => ?_
    have hj : j ∈ Notes.joiners (setup.notes acts) := mem_joiners.mpr ⟨_, mem_joinersOf.mp hj⟩
    rw [h.joiners] at hj
    have hj := h.perm_leavers.symm.subset hj
    rw [heq, leavers_append, List.mem_append] at hj
    have hcons : leavers (.left i c closed :: after) = i :: leavers after := rfl
    rw [hcons, hafter, List.mem_singleton] at hj
    exact hj.symm
  obtain ⟨batch, rfl⟩ := Option.isSome_iff_exists.mp hsome
  refine ⟨i, c, batch, hleft, ?_⟩
  rw [(hbatch batch rfl).2.2, handedIn_eq fun _ _ _ => h.left]

/-- Who has called the compiler has taken a batch along. -/
theorem closing_of_called (h : Complete setup acts texts) {source : Text}
    (hcalled : .called i source ∈ setup.notes acts) :
    ∃ batch, .left i (.source (texts i)) (some batch) ∈ setup.notes acts := by
  have hown := mem_about.mpr ⟨hcalled, rfl⟩
  obtain ⟨closed, own, -, habout, hcalls⟩ := h.member i (h.lt_length hcalled)
  have hmem : source ∈ called own := by
    rw [Note.subject, habout] at hown
    simp only [List.mem_cons, reduceCtorEq, false_or] at hown
    exact List.mem_filterMap.mpr ⟨_, hown, rfl⟩
  rw [hcalls] at hmem
  obtain ⟨batch, rfl, -⟩ := Option.map_eq_some_iff.mp (Option.mem_toList.mp hmem)
  exact ⟨batch, mem_of_about habout (by simp)⟩

/-- The compiler was called once, on what all loads have inlined. -/
theorem called_eq (h : Complete setup acts texts) (hne : leavers (setup.notes acts) ≠ []) :
    called (setup.notes acts) = [(leavers (setup.notes acts)).flatMap texts] := by
  have hledger := h.run.reached.chronicle.ledger
  obtain ⟨i, c, batch, hleft, hsource⟩ := h.exists_closing hne
  have honly : ∀ j source, .called j source ∈ setup.notes acts → j = i := by
    intro j source hcalled
    obtain ⟨batch', hleft'⟩ := h.closing_of_called hcalled
    exact (hledger.handed_unique hleft' hleft ((h.epoch hleft').trans (h.epoch hleft).symm)).1
  obtain ⟨closed, own, -, habout, hcalls⟩ := h.member i (h.lt_length hleft)
  have hclosed : closed = some batch := by
    have hleft' : .left i (.source (texts i)) closed ∈ setup.notes acts :=
      mem_of_about habout (by simp)
    exact (hledger.left_unique hleft' hleft).2
  rw [called_about honly, habout, ← hsource]
  exact hcalls.trans (by rw [hclosed]; rfl)

end Complete

/-- All loads have joined one epoch, and all of them have answered with a text. -/
theorem Came.compiledOnce {rest : List Note}
    (h : Came setup loads (joinedFirst loads.length ++ rest) p) (hrest : joiners rest = [])
    (hauthoritative : setup.config.environment.authoritative = true) (hloads : loads ≠ [])
    (hok : ∀ i < loads.length, ∃ t, p.outcome? i = some (.ok t)) : CompiledOnce setup loads p := by
  obtain ⟨acts, hrun, rfl, rfl, hnotes⟩ := h.run
  have hjoined : ∀ i < (submissions acts).length, .joined i 1 ∈ setup.notes acts := by
    intro i hi
    rw [hnotes]
    exact List.mem_append_left _ (List.mem_map.mpr ⟨i, List.mem_range.mpr hi, rfl⟩)
  have hmember : ∀ i, ∃ source, i < (submissions acts).length → ∃ closed own,
      EndsIn (setup.after acts).resolution i (.ok source) ∧
      about i (setup.notes acts) = .joined i 1 :: .left i (.source source) closed :: own ∧
      called own = (closed.map ClosedBatch.source).toList := by
    intro i
    by_cases hi : i < (submissions acts).length
    · obtain ⟨t, ht⟩ := hok i hi
      obtain ⟨source, closed, own, h⟩ := hrun.member hauthoritative (hjoined i hi) ht
      exact ⟨source, fun _ => ⟨closed, own, h⟩⟩
    · exact ⟨[], fun h => absurd h hi⟩
  choose texts hmember using hmember
  have hcomplete : Complete setup acts texts := by
    refine ⟨hrun, hauthoritative, ?_, hjoined, hmember⟩
    rw [hnotes, joiners_append, joiners_joinedFirst, hrest, List.append_nil]
  have hleavers : leavers (setup.notes acts) = leavers rest := by
    rw [hnotes, leavers_append, leavers_joinedFirst, List.nil_append]
  have hperm := hcomplete.perm_leavers
  have hne : leavers (setup.notes acts) ≠ [] := by
    intro hnone
    rw [hnone] at hperm
    exact hloads (List.length_eq_zero_iff.mp (by simpa using hperm.length_eq.symm))
  refine ⟨acts, rest, hrun, rfl, rfl, hnotes, hrest, hleavers ▸ hperm, texts, fun i hi => ?_, ?_⟩
  · obtain ⟨-, -, hends, -⟩ := hmember i hi
    exact hends
  · rw [hrun.calls, hcomplete.called_eq hne, hleavers]

/-- No inlining of a load has failed that has answered with a text. -/
theorem Came.not_failed (h : Came setup loads notes p)
    (hauthoritative : setup.config.environment.authoritative = true)
    (hok : ∀ i < loads.length, ∃ t, p.outcome? i = some (.ok t)) : ¬Failed p := by
  rintro ⟨i, fault, hends⟩
  have hlinked := h.reached.linked
  have hmem : i ∈ p.resolution.inlinings.map Inlining.load := by
    obtain ⟨k, hk⟩ := hends
    exact List.mem_map.mpr ⟨_, List.mem_of_getElem? hk, rfl⟩
  obtain ⟨t, ht⟩ := hok i (hlinked.bounded i hmem)
  rcases h.reached.joined_of_inlining i hmem with ⟨e, hjoined⟩ | hinline
  · obtain ⟨acts, hrun, rfl, rfl, rfl⟩ := h.run
    obtain ⟨source, -, -, hends', -⟩ := hrun.member hauthoritative hjoined ht
    cases hlinked.endsIn_unique hends hends'
  · obtain ⟨job, hjob, hmode⟩ := List.mem_map.mp (List.mem_of_getElem? hinline)
    rw [h.modes job hjob] at hmode
    cases hmode

/-- Submitting loads and polling them in turn until nothing moves is polling them together. -/
theorem polledTogether_runLoads (setup : Setup) (loads : List Load) :
    PolledTogether setup loads loads.length
      (runLoads .translate (loads.map (·, 0)) setup.start) := by
  have hruns : runLoads .translate (loads.map (·, 0)) setup.start =
      machine.settle depth (.resolution .disk :: (List.range loads.length).map Task.job) depth
        (submitted setup (loads.map (·, 0))) := by
    have hjobs : setup.start.jobs.length = 0 := rfl
    simp only [runLoads, hjobs, Nat.zero_add, List.length_map]
    rfl
  obtain ⟨fuel, hfuel⟩ : ∃ fuel, depth = fuel + 1 := ⟨999999, rfl⟩
  rw [hruns, hfuel]
  exact polledTogether_settle setup loads fuel fuel

/-- Loads that are submitted together, each of which pauses before it leaves, are one batch if none of
them fails: all of them join the same epoch before the first one leaves, and the compiler is called
once, on what all of them have inlined. -/
theorem compiled_together (h : PolledTogether setup loads loads.length p) (hloads : loads ≠ [])
    (hauthoritative : setup.config.environment.authoritative = true)
    (hdefer : setup.config.batch.deferFirstLoad = false)
    (hticks : 0 < setup.config.batch.settleTicks)
    (hok : ∀ i < loads.length, ∃ t, p.outcome? i = some (.ok t)) : CompiledOnce setup loads p := by
  obtain ⟨notes, hcame⟩ := h.came
  rcases h.gathered hdefer hticks with hfailed | hgathered | ⟨-, rest, hrest, hcame⟩
  · exact absurd hfailed (hcame.not_failed hauthoritative hok)
  · have hcame : Came setup loads (joinedFirst loads.length ++ []) p :=
      (List.append_nil (joinedFirst loads.length)).symm ▸ hgathered.came
    exact hcame.compiledOnce rfl hauthoritative hloads hok
  · exact hcame.compiledOnce hrest hauthoritative hloads hok

/-- Two loads, the first of which has an import. -/
def mixedLoads : List Load :=
  [⟨"s/x", "@import \"a\";", []⟩, ⟨"s/y", "b", []⟩]

/-- The second one leaves first, and both are compiled together. -/
theorem compiled_together_mixed :
    CompiledOnce (echoSetup [("s/_a.scss", "c")]) mixedLoads
      (runLoads .translate (mixedLoads.map (·, 0)) (echoSetup [("s/_a.scss", "c")]).start) := by
  have hfirst : (runLoads .translate (mixedLoads.map (·, 0))
      (echoSetup [("s/_a.scss", "c")]).start).outcome? 0 = some (.ok "bc;") := by
    decide +kernel
  have hsecond : (runLoads .translate (mixedLoads.map (·, 0))
      (echoSetup [("s/_a.scss", "c")]).start).outcome? 1 = some (.ok []) := by
    decide +kernel
  refine compiled_together (polledTogether_runLoads _ mixedLoads) (by decide) (by decide)
    (by decide) (by decide) fun i hi => ?_
  match i, hi with
  | 0, _ => exact ⟨_, hfirst⟩
  | 1, _ => exact ⟨_, hsecond⟩

/-- A packaging step in which loads do not pause before they leave. -/
def hastySetup : Setup :=
  { echoSetup [] with config := { environment := .packagingStep, batch := ⟨0, false⟩ } }

def pairedLoads : List Load :=
  [⟨"s/x", "a", []⟩, ⟨"s/y", "b", []⟩]

/-- Without a pause the first load may leave, and have the compiler called on its source alone, before
the second one joins. -/
theorem compiled_apart :
    ¬∀ (setup : Setup) (loads : List Load) (p : Pipeline),
      PolledTogether setup loads loads.length p → loads ≠ [] →
      setup.config.environment.authoritative = true →
      setup.config.batch.deferFirstLoad = false →
      (∀ i < loads.length, ∃ t, p.outcome? i = some (.ok t)) → CompiledOnce setup loads p := by
  intro h
  have hfirst : (runLoads .translate (pairedLoads.map (·, 0)) hastySetup.start).outcome? 0 =
      some (.ok "a") := by
    decide +kernel
  have hsecond : (runLoads .translate (pairedLoads.map (·, 0)) hastySetup.start).outcome? 1 =
      some (.ok "b") := by
    decide +kernel
  have hcalls : (runLoads .translate (pairedLoads.map (·, 0))
      hastySetup.start).batching.workshop.compiler.calls = ["a", "b"] := by
    decide +kernel
  obtain ⟨acts, rest, -, -, -, -, -, -, texts, -, honce⟩ :=
    h hastySetup pairedLoads _ (polledTogether_runLoads hastySetup pairedLoads) (by decide)
      (by decide) (by decide) fun i hi => by
        match i, hi with
        | 0, _ => exact ⟨_, hfirst⟩
        | 1, _ => exact ⟨_, hsecond⟩
  rw [hcalls] at honce
  have hlength := congrArg List.length honce
  cases hlength

end StyleBatch.Pipeline
