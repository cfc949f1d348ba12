import StyleBatch.Proofs.Chain
import StyleBatch.Proofs.Resolution.Deadlock
import StyleBatch.Proofs.Resolution.Outcome

/-!
# Circular imports are real

A fault travels from the task that it came up in to all that wait for it, over the loads that
share the cache.  So it can reach a load that has nothing on the chain.  What stays true on the
way is `Genuine`: the chain was followed import by import, there is a cycle on it, and whoever
has the fault leads to a cycle.

* `Genuine.of_key`, `Genuine.of_location`: it is true where a guard fires.
* `Faithful.transition`: it stays true where a fault is repeated.
* `circular_of_raised`: it is true of all faults of this kind.
-/

namespace StyleBatch

open Library

namespace Loader

theorem normalize_ne_circularImport (loader : Loader) (file base : Text) (chain : List Text) :
    loader.normalize file base ≠ .error (.circularImport chain) := by
  cases loader with
  | memory => simp [normalize]
  | disk root =>
    rw [normalize]
    split <;> simp

theorem locate_ne_circularImport (loader : Loader) (disk : Disk) (name : Text)
    (chain : List Text) : loader.locate disk name ≠ .error (.circularImport chain) := by
  rw [locate]
  split
  · simp
  · cases loader <;> simp [notLocated]

theorem fetch_ne_circularImport (loader : Loader) (disk : Disk) (address : Text)
    (chain : List Text) : loader.fetch disk address ≠ .error (.circularImport chain) := by
  cases loader <;> rw [fetch] <;> split <;> simp

end Loader

namespace Library

variable {lib : Library} {loads : List Load}

/-- No search ends in a circular import: only the guards do. -/
theorem find_ne_circularImport (base file : Text) (chain : List Text) :
    lib.find base file ≠ .error (.circularImport chain) := by
  intro h
  simp only [find, bind, Except.bind] at h
  cases hname : lib.loader.normalize file base with
  | error fault =>
    rw [hname] at h
    cases h
    exact lib.loader.normalize_ne_circularImport file base chain hname
  | ok name =>
    rw [hname] at h
    cases haddress : lib.loader.locate lib.disk name with
    | error fault =>
      simp only [haddress, Except.error.injEq] at h
      exact lib.loader.locate_ne_circularImport lib.disk name chain (h ▸ haddress)
    | ok address => simp [haddress, pure, Except.pure] at h

theorem imports_ne_circularImport (address source : Text) (chain : List Text) :
    lib.imports address source ≠ .error (.circularImport chain) := by
  intro h
  obtain ⟨d, -, hd⟩ := exists_of_mapM_eq_error h
  dsimp only at hd
  split at hd <;> simp at hd

variable (lib loads) in
/-- A chain that something at an address can be reported with: it is circular, a cycle is on it,
and the address leads to a cycle. -/
structure Genuine (a : Text) (chain : List Text) : Prop where
  circular : lib.Circular loads chain
  cycle : ∃ b ∈ chain, Relation.TransGen (lib.Edge loads) b b
  cyclic : lib.Cyclic loads a

theorem Genuine.of_edge {a b : Text} {chain : List Text} (h : lib.Genuine loads b chain)
    (hab : lib.Edge loads a b) : lib.Genuine loads a chain :=
  { h with cyclic := h.cyclic.of_edge hab }

theorem Genuine.append {a : Text} {chain : List Text} (h : lib.Genuine loads a chain)
    (more : List Load) : lib.Genuine (loads ++ more) a chain where
  circular := h.circular.append more
  cycle := h.cycle.imp fun _ hb => ⟨hb.1, cycle_append more hb.2⟩
  cyclic := h.cyclic.append more

/-! ## Where a guard fires -/

theorem mem_ancestry_of_asks {w : Way} {i : Import} (h : w.Asks lib loads i) :
    w.address loads ∈ w.ancestry loads := by
  cases w with
  | load n => exact List.mem_singleton_self _
  | key => exact h.elim
  | location => exact List.mem_cons_self

/-- An import whose key is on its own way. -/
theorem Genuine.of_key {w : Way} (hopen : w.Open lib loads) (hbarless : lib.Barless loads)
    {i : Import} (hasks : w.Asks lib loads i) (hmem : i.key.text ∈ w.ancestry loads) :
    lib.Genuine loads (w.address loads) ((w.ancestry loads).reverse ++ [i.key.text]) := by
  have hcycle := hopen.cycle_of_key hbarless hasks hmem
  refine ⟨hopen.circular hbarless.plain hasks (Or.inl rfl) hmem, ⟨_, ?_, hcycle⟩,
    cyclic_of_cycle hcycle⟩
  exact List.mem_append_left _ (List.mem_reverse.mpr (mem_ancestry_of_asks hasks))

/-- An import that leads to a location on its own way. -/
theorem Genuine.of_location {w : Way} (hopen : w.Open lib loads) (hbarless : lib.Barless loads)
    {i : Import} (hasks : w.Asks lib loads i) {l : Location}
    (hfind : lib.find i.key.base i.file = .ok l) (hmem : l.text ∈ w.ancestry loads) :
    lib.Genuine loads l.text ((w.ancestry loads).reverse ++ [l.text]) := by
  have hbar := hbarless.location l (hasks.reachable hopen hbarless.plain hfind)
  have hcycle := hopen.cycle_of_location hbarless hasks hfind hmem hbar
  refine ⟨hopen.circular hbarless.plain hasks (Or.inr ⟨l, hfind, rfl⟩) hmem, ⟨_, ?_, hcycle⟩,
    cyclic_of_cycle hcycle⟩
  exact List.mem_append_right _ (List.mem_singleton_self _)

end Library

namespace Resolution

variable {lib : Library} {loads : List Load} {r r' : Resolution} {task : Task}

/-- The chains that keys and locations have ended in are genuine for them. -/
structure Faithful (lib : Library) (loads : List Load) (r : Resolution) : Prop where
  keys : ∀ k chain, keyOutcome? r k = some (.error (.circularImport chain)) →
    ∃ t l, r.key? k = some t ∧ lib.find k.base t.file = .ok l ∧ lib.Genuine loads l.text chain
  locations : ∀ l chain, locationOutcome? r l = some (.error (.circularImport chain)) →
    lib.Genuine loads l.text chain

/-- A branch repeats the fault of its key, unless it leads back. -/
theorem Faithful.answer (h : Faithful lib loads r) (hsound : Sound lib loads r)
    (hbarless : lib.Barless loads) {w : Way} (hw : w.Stands lib loads r) {i : Import}
    (hasks : w.Asks lib loads i) {chain : List Text}
    (ho : Answer r (w.ancestry loads) i.key (.error (.circularImport chain))) :
    lib.Genuine loads (w.address loads) chain := by
  have hopen := hw.open hsound
  have hbase := hopen.separator_not_mem_base hbarless.plain
  rcases ho with ⟨hmem, ho⟩ | ⟨-, ho⟩
  · cases ho
    exact .of_key hopen hbarless hasks hmem
  · obtain ⟨t, l, hk, hfind, hgenuine⟩ := h.keys _ _ ho
    have hfile : t.file = i.file :=
      congrArg Import.file ((hsound.formed hbarless.plain hk).eq (hasks.formed hbase) rfl)
    exact hgenuine.of_edge (hasks.edge hbase (hfile ▸ hfind))

/-- A source repeats the fault of one of its imports. -/
theorem Faithful.finished (h : Faithful lib loads r) (hsound : Sound lib loads r)
    (hbarless : lib.Barless loads) {w : Way} (hw : w.Stands lib loads r) {address source : Text}
    (hasks : ∀ is, lib.imports address source = .ok is → ∀ i ∈ is, w.Asks lib loads i)
    {finish : List Text → Text} {chain : List Text}
    (hfinished : Finished lib r address source (w.ancestry loads) finish
      (.error (.circularImport chain))) : lib.Genuine loads (w.address loads) chain := by
  rcases hfinished with ⟨fault, himports, ho⟩ | ⟨is, os, himports, hos, ho⟩
  · cases ho
    exact absurd himports (lib.imports_ne_circularImport address source chain)
  · cases htexts : os.mapM id with
    | ok ts =>
      rw [htexts] at ho
      cases ho
    | error fault =>
      rw [htexts] at ho
      cases ho
      obtain ⟨o, hmem, ho⟩ := exists_of_mapM_eq_error htexts
      obtain ⟨i, hi, hanswer⟩ := exists_left_of_forall₂ hos hmem
      rw [id] at ho
      exact h.answer hsound hbarless hw (hasks is himports i hi) (ho ▸ hanswer)

/-- A key repeats the fault of its location, unless that is on its own way. -/
theorem Faithful.key (h : Faithful lib loads r) (hsound : Sound lib loads r)
    (hbarless : lib.Barless loads) {k : Key} {t : KeyTask} (hk : r.key? k = some t)
    {chain : List Text} (hphase : (KeyPhase.settled (.error (.circularImport chain))).Sound lib r k
      t.file t.ancestry) :
    ∃ l, lib.find k.base t.file = .ok l ∧ lib.Genuine loads l.text chain := by
  rcases hphase with ⟨fault, hfind, ho⟩ | ⟨l, hfind, ⟨hmem, ho⟩ | ⟨-, ho⟩⟩
  · cases ho
    exact absurd hfind (lib.find_ne_circularImport _ _ chain)
  · cases ho
    obtain ⟨w, hw, -, hancestry⟩ := hsound.exists_way_key hk
    obtain ⟨hway, hasks, -⟩ := hw.of_key
    rw [← hancestry] at hmem ⊢
    exact ⟨l, hfind, .of_location (hway.open hsound) hbarless hasks hfind hmem⟩
  · exact ⟨l, hfind, h.locations l chain ho⟩

theorem Faithful.location (h : Faithful lib loads r) (hsound : Sound lib loads r)
    (hbarless : lib.Barless loads) {l : Location} {t : LocationTask} (hl : r.location? l = some t)
    {chain : List Text} (hphase : (LocationPhase.settled (.error (.circularImport chain))).Sound lib
      r l t.load (l.text :: t.ancestry)) : lib.Genuine loads l.text chain := by
  obtain ⟨w, hw, -, hancestry⟩ := hsound.exists_way_location hl
  rw [← hancestry] at hphase
  rcases hphase with ⟨fault, hfetch, ho⟩ | ⟨raw, hfetch, hfinished⟩
  · cases ho
    exact absurd hfetch (lib.loader.fetch_ne_circularImport lib.disk l.text chain)
  · exact h.finished hsound hbarless hw (fun is himports i hi => ⟨raw, is, hfetch, himports, hi⟩)
      hfinished

theorem Faithful.load (h : Faithful lib loads r) (hsound : Sound lib loads r)
    (hbarless : lib.Barless loads) {i n : Nat} {load : Load} (hload : loads[n]? = some load)
    {chain : List Text}
    (hi : r.inlinings[i]? = some ⟨n, .settled (.error (.circularImport chain))⟩) :
    lib.Genuine loads load.address chain := by
  obtain ⟨load', hload', t, hfinished⟩ := hsound.inlinings i n _ hi
  rw [hload] at hload'
  cases hload'
  have hn : n < loads.length := (List.getElem?_eq_some_iff.mp hload).1
  have hw : (Way.load n).Stands lib loads r := .load hn ⟨i, _, hi, nofun⟩
  rw [← Way.ancestry_load hload] at hfinished
  rw [← Way.address_load hload]
  exact h.finished hsound hbarless hw (fun is himports i hi => ⟨load, is, hload, himports, hi⟩)
    hfinished

theorem Faithful.transition (h : Faithful lib loads r) (hsound : Sound lib loads r)
    (hbarless : lib.Barless loads) (ht : Transition lib r task r') : Faithful lib loads r' where
  keys k chain ho := by
    rcases ht.keyOutcome?_cases hsound ho with ho | ⟨t, hk, hphase⟩
    · obtain ⟨t, l, hk, hgenuine⟩ := h.keys k chain ho
      obtain ⟨phase, hk', -⟩ := ht.later.key k t hk
      exact ⟨_, l, hk', hgenuine⟩
    · obtain ⟨l, hgenuine⟩ := h.key hsound hbarless hk hphase
      obtain ⟨phase, hk', -⟩ := ht.later.key k t hk
      exact ⟨_, l, hk', hgenuine⟩
  locations l chain ho := by
    rcases ht.locationOutcome?_cases hsound ho with ho | ⟨t, hl, hphase⟩
    · exact h.locations l chain ho
    · exact h.location hsound hbarless hl hphase

theorem Reached.faithful (hr : Reached lib loads r) (hbarless : lib.Barless loads) :
    Faithful lib loads r := by
  induction hr with
  | start =>
    refine ⟨?_, ?_⟩
    · rintro k chain ⟨⟩
    · rintro l chain ⟨⟩
  | submit load _ ih =>
    have h := ih hbarless.of_append
    refine ⟨fun k chain ho => ?_, fun l chain ho => (h.locations l chain ho).append [load]⟩
    obtain ⟨t, l, hk, hfind, hgenuine⟩ := h.keys k chain ho
    exact ⟨t, l, hk, hfind, hgenuine.append [load]⟩
  | begin n _ _ _ ih => exact ⟨(ih hbarless).keys, (ih hbarless).locations⟩
  | elsewhere world _ _ ih => exact ⟨(ih hbarless).keys, (ih hbarless).locations⟩
  | poll hr hcan ih =>
    exact (ih hbarless).transition hr.sound hbarless (transition_of_canStep hr.coherent.1 hcan)

/-! ## Faults of all tasks -/

/-- A fault that a task has ended in. -/
inductive Raised (r : Resolution) (fault : Fault) : Prop
  | load {i n : Nat} : r.inlinings[i]? = some ⟨n, .settled (.error fault)⟩ → Raised r fault
  | branch {owner : Owner} {j : Nat} {b : Branch} : (branches r owner)[j]? = some b →
      b.phase = .settled (.error fault) → Raised r fault
  | key {k : Key} : keyOutcome? r k = some (.error fault) → Raised r fault
  | location {l : Location} : locationOutcome? r l = some (.error fault) → Raised r fault

/-- What asks for an import is at the end of a way that stands. -/
theorem Asked.exists_way {n : Nat} {ancestry : Ancestry} {i : Import}
    (h : Asked lib loads r n ancestry i) (hsound : Sound lib loads r) :
    ∃ w : Way, w.Stands lib loads r ∧ w.Asks lib loads i ∧ w.ancestry loads = ancestry := by
  obtain ⟨hstaged, address, source, is, horigin, himports, hi⟩ := h
  cases horigin with
  | @load _ load hload =>
    have hn : n < loads.length := (List.getElem?_eq_some_iff.mp hload).1
    exact ⟨.load n, .load hn hstaged, ⟨load, is, hload, himports, hi⟩, Way.ancestry_load hload⟩
  | location hl hfetch =>
    obtain ⟨w, hw, -, hancestry⟩ := hsound.exists_way_location hl
    exact ⟨_, hw, ⟨source, is, hfetch, himports, hi⟩, congrArg _ hancestry⟩

theorem Faithful.branch (h : Faithful lib loads r) (hsound : Sound lib loads r)
    (hbarless : lib.Barless loads) {owner : Owner} {j : Nat} {b : Branch} {chain : List Text}
    (hj : (branches r owner)[j]? = some b)
    (hphase : b.phase = .settled (.error (.circularImport chain))) :
    ∃ a, lib.Genuine loads a chain := by
  obtain ⟨hasked, hanswer⟩ := hsound.branch hj
  obtain ⟨w, hw, hasks, hancestry⟩ := hasked.exists_way hsound
  rw [hphase, ← hancestry] at hanswer
  exact ⟨_, h.answer hsound hbarless hw hasks hanswer⟩

theorem Faithful.exists_genuine (h : Faithful lib loads r) (hsound : Sound lib loads r)
    (hbarless : lib.Barless loads) {chain : List Text} (hr : Raised r (.circularImport chain)) :
    ∃ a, lib.Genuine loads a chain := by
  cases hr with
  | load hi =>
    obtain ⟨load, hload, -⟩ := hsound.inlinings _ _ _ hi
    exact ⟨_, h.load hsound hbarless hload hi⟩
  | branch hj hphase => exact h.branch hsound hbarless hj hphase
  | key ho =>
    obtain ⟨t, l, -, -, hgenuine⟩ := h.keys _ _ ho
    exact ⟨_, hgenuine⟩
  | location ho => exact ⟨_, h.locations _ _ ho⟩

/-- Every fault for a circular import is real.  Whichever task has ended in it, its chain starts
at the address of a load, goes on import by import and ends where it has been before, and on it
there is a cycle; and a load that fails with it leads to a cycle, also where the chain is that of
another load. -/
theorem circular_of_raised (hr : Reached lib loads r) (hbarless : lib.Barless loads) :
    (∀ chain, Raised r (.circularImport chain) → lib.Circular loads chain ∧
      ∃ a ∈ chain, Relation.TransGen (lib.Edge loads) a a) ∧
    ∀ (i n : Nat) (load : Load) (chain : List Text), loads[n]? = some load →
      r.inlinings[i]? = some ⟨n, .settled (.error (.circularImport chain))⟩ →
      lib.Cyclic loads load.address := by
  have h := hr.faithful hbarless
  refine ⟨fun chain hraised => ?_, fun i n load chain hload hi => ?_⟩
  · obtain ⟨a, hgenuine⟩ := h.exists_genuine hr.sound hbarless hraised
    exact ⟨hgenuine.circular, hgenuine.cycle⟩
  · exact (h.load hr.sound hbarless hload hi).cyclic

/-- Two loads that import one of two files that import each other. -/
def circularPair : List Load :=
  [⟨"s/x", "@import \"a\";", []⟩, ⟨"s/y", "@import \"a\";", []⟩]

/-- The second load fails with the chain of the first one, and leads to a cycle itself. -/
theorem circular_pair : ∃ r chain, Reached circularLibrary circularPair r ∧
    circularLibrary.Barless circularPair ∧ chain.head? = some ("s/x" : Text) ∧
    r.inlinings[1]? = some ⟨1, .settled (.error (.circularImport chain))⟩ ∧
    circularLibrary.Circular circularPair chain ∧ circularLibrary.Cyclic circularPair "s/y" := by
  have hbarless : circularLibrary.Barless circularPair := barless_memory (by decide) (by decide)
  have hended : (play circularLibrary circularPair 40).inlinings[1]? = some ⟨1, .settled (.error
      (.circularImport ["s/x", "s/|./_a.scss", "s/_a.scss", "s/|./_b.scss", "s/_b.scss",
        "s/|./_a.scss"]))⟩ := by decide +kernel
  have hr := reached_play circularLibrary circularPair 40
  obtain ⟨hcircular, hcyclic⟩ := circular_of_raised hr hbarless
  exact ⟨_, _, hr, hbarless, rfl, hended, (hcircular _ (.load hended)).1,
    hcyclic 1 1 _ _ rfl hended⟩

end Resolution

end StyleBatch
