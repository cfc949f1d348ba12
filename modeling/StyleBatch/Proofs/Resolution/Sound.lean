import StyleBatch.Proofs.Resolution.Later

/-!
# What tasks stand for

Every task of a resolution was started by another one, and every outcome was put together from
others.  `Sound lib loads r` says so: where a task came from (`Asked`), what its phase rests on
(`KeyPhase.Sound`, `LocationPhase.Sound`, `InliningPhase.Sound`) and, once it is settled, whose
outcomes it repeats (`Answer`, `Finished`).

* `Sound.transition`: every transition keeps it.
* `Reached.sound`: it holds in every state that comes about.
-/

namespace StyleBatch.Resolution

/-- The outcome of a branch is the outcome of its key, unless it leads back. -/
def Answer (r : Resolution) (ancestry : Ancestry) (k : Key) (o : Outcome) : Prop :=
  k.text ∈ ancestry ∧ o = .error (ancestry.circular k.text) ∨
    k.text ∉ ancestry ∧ keyOutcome? r k = some o

def BranchPhase.Sound (r : Resolution) (ancestry : Ancestry) (k : Key) : BranchPhase → Prop
  | .fresh => True
  | .reserved _ => k.text ∉ ancestry ∧ (r.key? k).isSome
  | .settled o => Answer r ancestry k o

/-- The branches of a source are its imports in their order. -/
def Expanding (lib : Library) (r : Resolution) (address source : Text) (n : Nat)
    (ancestry : Ancestry) (bs : List Branch) : Prop :=
  lib.imports address source = .ok (bs.map Branch.target) ∧
    ∀ b ∈ bs, b.load = n ∧ b.ancestry = ancestry ∧ b.phase.Sound r ancestry b.target.key

/-- A source ends in its own fault or in the outcomes of its imports. -/
def Finished (lib : Library) (r : Resolution) (address source : Text) (ancestry : Ancestry)
    (finish : List Text → Text) (o : Outcome) : Prop :=
  (∃ fault, lib.imports address source = .error fault ∧ o = .error fault) ∨
    ∃ is os, lib.imports address source = .ok is ∧
      List.Forall₂ (fun i o => Answer r ancestry i.key o) is os ∧ o = (os.mapM id).map finish

def InliningPhase.Sound (lib : Library) (r : Resolution) (n : Nat) (load : Load) :
    InliningPhase → Prop
  | .queued => True
  | .expanding bs => Expanding lib r load.address load.text n [load.address] bs
  | .settled o => ∃ t, Finished lib r load.address load.text [load.address] (fun _ => t) o

def KeyPhase.Sound (lib : Library) (r : Resolution) (k : Key) (file : Text)
    (ancestry : Ancestry) : KeyPhase → Prop
  | .reserved l _ => lib.find k.base file = .ok l ∧ l.text ∉ ancestry ∧ (r.location? l).isSome
  | .settled o =>
    (∃ fault, lib.find k.base file = .error fault ∧ o = .error fault) ∨
      ∃ l, lib.find k.base file = .ok l ∧
        (l.text ∈ ancestry ∧ o = .error (ancestry.circular l.text) ∨
          l.text ∉ ancestry ∧ locationOutcome? r l = some o)
  | _ => True

def LocationPhase.Sound (lib : Library) (r : Resolution) (l : Location) (n : Nat)
    (ancestry : Ancestry) : LocationPhase → Prop
  | .expanding raw bs => lib.fetch l = .ok raw ∧ Expanding lib r l.text raw n ancestry bs
  | .settled o =>
    (∃ fault, lib.fetch l = .error fault ∧ o = .error fault) ∨
      ∃ raw, lib.fetch l = .ok raw ∧
        Finished lib r l.text raw ancestry (fill raw (Directive.scan raw)) o
  | _ => True

/-- A source that works on a load, with its ancestry, its address and its text. -/
inductive Origin (lib : Library) (loads : List Load) (r : Resolution) :
    Nat → Ancestry → Text → Text → Prop
  | load {n : Nat} {load : Load} : loads[n]? = some load →
      Origin lib loads r n [load.address] load.address load.text
  | location {l : Location} {t : LocationTask} {raw : Text} : r.location? l = some t →
      lib.fetch l = .ok raw → Origin lib loads r t.load (l.text :: t.ancestry) l.text raw

/-- A source that works on a staged load has this import. -/
def Asked (lib : Library) (loads : List Load) (r : Resolution) (n : Nat) (ancestry : Ancestry)
    (i : Import) : Prop :=
  Staged r n ∧ ∃ address source is, Origin lib loads r n ancestry address source ∧
    lib.imports address source = .ok is ∧ i ∈ is

/-- The key whose placeholder a location is put in is the one that started it. -/
def Placed (lib : Library) (r : Resolution) (l : Location) (t : LocationTask) : Prop :=
  ∃ tk, r.key? t.key = some tk ∧ t.load = tk.load ∧ t.ancestry = t.key.text :: tk.ancestry ∧
    lib.find t.key.base tk.file = .ok l ∧ l.text ∉ tk.ancestry

/-- Every task has its reason, and every outcome its origin. -/
structure Sound (lib : Library) (loads : List Load) (r : Resolution) : Prop where
  length : r.loads.length = loads.length
  unstaged : ∀ n, ¬Staged r n → r.loads[n]? = loads[n]?
  once : ∀ (i i' : Nat) (x x' : Inlining), r.inlinings[i]? = some x → r.inlinings[i']? = some x' →
    x.load = x'.load → i = i'
  inlinings : ∀ (i n : Nat) (phase : InliningPhase), r.inlinings[i]? = some ⟨n, phase⟩ →
    ∃ load, loads[n]? = some load ∧ phase.Sound lib r n load
  keys : ∀ k t, r.key? k = some t → Asked lib loads r t.load t.ancestry ⟨k, t.file⟩ ∧
    k.text ∉ t.ancestry ∧ t.phase.Sound lib r k t.file t.ancestry
  locations : ∀ l t, r.location? l = some t → Placed lib r l t ∧
    t.phase.Sound lib r l t.load (l.text :: t.ancestry)

/-! ## What tasks stand for stays -/

section Later

variable {lib : Library} {loads : List Load} {r r' : Resolution}

theorem Answer.later {ancestry : Ancestry} {k : Key} {o : Outcome} (h : Answer r ancestry k o)
    (hlater : Later r r') : Answer r' ancestry k o :=
  h.imp_right fun h => ⟨h.1, hlater.keyOutcome? h.2⟩

theorem BranchPhase.Sound.later {ancestry : Ancestry} {k : Key} {phase : BranchPhase}
    (h : phase.Sound r ancestry k) (hlater : Later r r') : phase.Sound r' ancestry k := by
  cases phase with
  | fresh => trivial
  | reserved own => exact ⟨h.1, hlater.isSome_key h.2⟩
  | settled o => exact Answer.later h hlater

theorem Expanding.later {address source : Text} {n : Nat} {ancestry : Ancestry} {bs : List Branch}
    (h : Expanding lib r address source n ancestry bs) (hlater : Later r r') :
    Expanding lib r' address source n ancestry bs := by
  refine ⟨h.1, fun b hb => ?_⟩
  obtain ⟨hload, hancestry, hphase⟩ := h.2 b hb
  exact ⟨hload, hancestry, hphase.later hlater⟩

theorem Finished.later {address source : Text} {ancestry : Ancestry} {finish : List Text → Text}
    {o : Outcome} (h : Finished lib r address source ancestry finish o) (hlater : Later r r') :
    Finished lib r' address source ancestry finish o := by
  refine h.imp_right ?_
  rintro ⟨is, os, himports, hos, ho⟩
  exact ⟨is, os, himports, hos.imp fun _ _ h => h.later hlater, ho⟩

theorem InliningPhase.Sound.later {n : Nat} {load : Load} {phase : InliningPhase}
    (h : phase.Sound lib r n load) (hlater : Later r r') : phase.Sound lib r' n load := by
  cases phase with
  | queued => trivial
  | expanding bs => exact Expanding.later h hlater
  | settled o =>
    obtain ⟨t, h⟩ := h
    exact ⟨t, h.later hlater⟩

theorem KeyPhase.Sound.later {k : Key} {file : Text} {ancestry : Ancestry} {phase : KeyPhase}
    (h : phase.Sound lib r k file ancestry) (hlater : Later r r') :
    phase.Sound lib r' k file ancestry := by
  cases phase with
  | normalizing | locating => trivial
  | reserved l own => exact ⟨h.1, h.2.1, hlater.isSome_location h.2.2⟩
  | settled o =>
    refine Or.imp_right ?_ h
    rintro ⟨l, hfind, hl⟩
    exact ⟨l, hfind, hl.imp_right fun hl => ⟨hl.1, hlater.locationOutcome? hl.2⟩⟩

theorem LocationPhase.Sound.later {l : Location} {n : Nat} {ancestry : Ancestry}
    {phase : LocationPhase} (h : phase.Sound lib r l n ancestry) (hlater : Later r r') :
    phase.Sound lib r' l n ancestry := by
  cases phase with
  | queued | fetching => trivial
  | expanding raw bs => exact ⟨h.1, h.2.later hlater⟩
  | settled o =>
    refine Or.imp_right ?_ h
    rintro ⟨raw, hfetch, hfinished⟩
    exact ⟨raw, hfetch, hfinished.later hlater⟩

theorem Origin.later {n : Nat} {ancestry : Ancestry} {address source : Text}
    (h : Origin lib loads r n ancestry address source) (hlater : Later r r') :
    Origin lib loads r' n ancestry address source := by
  cases h with
  | load hload => exact .load hload
  | @location l t raw hl hfetch =>
    obtain ⟨phase, hl', -⟩ := hlater.location l t hl
    exact Origin.location (t := { t with phase }) hl' hfetch

theorem Asked.later {n : Nat} {ancestry : Ancestry} {i : Import}
    (h : Asked lib loads r n ancestry i) (hlater : Later r r') :
    Asked lib loads r' n ancestry i := by
  obtain ⟨hstaged, address, source, is, horigin, himports, hi⟩ := h
  exact ⟨hlater.staged n hstaged, address, source, is, horigin.later hlater, himports, hi⟩

theorem Placed.later {l : Location} {t : LocationTask} (h : Placed lib r l t)
    (hlater : Later r r') : Placed lib r' l t := by
  obtain ⟨tk, hk, hload, hancestry, hfind, hnot⟩ := h
  obtain ⟨phase, hk', -⟩ := hlater.key _ _ hk
  exact ⟨_, hk', hload, hancestry, hfind, hnot⟩

end Later

theorem KeyPhase.Searching.sound {lib : Library} {calls : DiskCalls} {r : Resolution} {k : Key}
    {file file' : Text} {ancestry : Ancestry} {phase : KeyPhase}
    (h : phase.Searching lib calls k file') : phase.Sound lib r k file ancestry := by
  cases phase with
  | normalizing | locating => trivial
  | reserved | settled => exact h.elim

theorem Expanding.withPhase {lib : Library} {r : Resolution} {address source : Text} {n : Nat}
    {ancestry : Ancestry} {bs : List Branch} (h : Expanding lib r address source n ancestry bs)
    {j : Nat} {b : Branch} {phase : BranchPhase} (hj : bs[j]? = some b)
    (hphase : phase.Sound r b.ancestry b.target.key) :
    Expanding lib r address source n ancestry (withPhase bs j phase) := by
  refine ⟨by rw [map_target_withPhase, h.1], fun b' hb' => ?_⟩
  obtain ⟨j', hj'⟩ := List.mem_iff_getElem?.mp hb'
  rw [getElem?_withPhase] at hj'
  split at hj'
  · rename_i hjj'
    subst hjj'
    rw [hj] at hj'
    cases hj'
    obtain ⟨hload, hancestry, -⟩ := h.2 b (List.mem_of_getElem? hj)
    exact ⟨hload, hancestry, hancestry ▸ hphase⟩
  · exact h.2 b' (List.mem_of_getElem? hj')

/-! ## Writing a resolution -/

namespace Sound

variable {lib : Library} {loads : List Load} {r r' : Resolution}

/-- Only the cache, the inlinings and the texts of unstaged loads count. -/
theorem congr (h : Sound lib loads r) (hcache : r'.cache = r.cache)
    (hinlinings : r'.inlinings = r.inlinings) (hlength : r'.loads.length = r.loads.length)
    (hunstaged : ∀ n, ¬Staged r n → r'.loads[n]? = r.loads[n]?) : Sound lib loads r' := by
  have hlater : Later r r' := .of_eq hcache hinlinings
  have hback : Later r' r := .of_eq hcache.symm hinlinings.symm
  refine ⟨hlength.trans h.length, fun n hn => ?_, hinlinings ▸ h.once, ?_, ?_, ?_⟩
  · have hn' : ¬Staged r n := fun hstaged => hn (hlater.staged n hstaged)
    exact (hunstaged n hn').trans (h.unstaged n hn')
  · intro i n phase hi
    obtain ⟨load, hload, hphase⟩ := h.inlinings i n phase (hinlinings ▸ hi)
    exact ⟨load, hload, hphase.later hlater⟩
  · intro k t ht
    rw [key?, hcache] at ht
    obtain ⟨hasked, hnot, hphase⟩ := h.keys k t ht
    exact ⟨hasked.later hlater, hnot, hphase.later hlater⟩
  · intro l t ht
    rw [location?, hcache] at ht
    obtain ⟨hplaced, hphase⟩ := h.locations l t ht
    exact ⟨hplaced.later hlater, hphase.later hlater⟩

theorem setLoadText (h : Sound lib loads r) {n : Nat} (hn : Staged r n) (text : Text) :
    Sound lib loads (r.setLoadText n text) := by
  refine h.congr rfl rfl (length_loads_setLoadText ..) fun n' hn' => ?_
  have hne : n ≠ n' := by
    rintro rfl
    exact hn' hn
  rw [getElem?_setLoadText, if_neg hne]

theorem clearPlaceholder (h : Sound lib loads r) {n : Nat} (hn : Staged r n) (k : Key)
    (location : Option Location) : Sound lib loads (r.clearPlaceholder n k location) :=
  (h.setLoadText hn _).congr rfl rfl rfl fun _ _ => rfl

theorem release (h : Sound lib loads r) (own : Bool) (o : Outcome) {n : Nat} (hn : Staged r n)
    (k : Key) (location : Option Location) : Sound lib loads (r.release own o n k location) := by
  rcases release_cases r own o n k location with heq | ⟨-, -, heq⟩
  · rw [heq]
    exact h
  · rw [heq]
    exact h.clearPlaceholder hn k location

theorem setInlining (h : Sound lib loads r) {i n : Nat} {old phase : InliningPhase} {load : Load}
    (hi : r.inlinings[i]? = some ⟨n, old⟩) (hnot : phase ≠ .queued) (hload : loads[n]? = some load)
    (hphase : phase.Sound lib r n load) : Sound lib loads (r.setInlining i phase) := by
  have hlater : Later r (r.setInlining i phase) := .setInlining r i hnot
  have hback : ∀ (i' : Nat) (x : Inlining), (r.setInlining i phase).inlinings[i']? = some x →
      (i = i' ∧ x = ⟨n, phase⟩) ∨ r.inlinings[i']? = some x := by
    intro i' x hx
    rw [getElem?_setInlining] at hx
    split at hx
    · rename_i hii'
      subst hii'
      rw [hi] at hx
      exact Or.inl ⟨rfl, (Option.some.inj hx).symm⟩
    · exact Or.inr hx
  have hload' : ∀ (i' : Nat) (x : Inlining), (r.setInlining i phase).inlinings[i']? = some x →
      ∃ x', r.inlinings[i']? = some x' ∧ x'.load = x.load := by
    intro i' x hx
    rcases hback i' x hx with ⟨rfl, rfl⟩ | hx
    · exact ⟨_, hi, rfl⟩
    · exact ⟨x, hx, rfl⟩
  refine ⟨h.length, fun n' hn' => ?_, ?_, ?_, ?_, ?_⟩
  · exact h.unstaged n' fun hstaged => hn' (hlater.staged n' hstaged)
  · intro i₁ i₂ x₁ x₂ h₁ h₂ hx
    obtain ⟨y₁, hy₁, hload₁⟩ := hload' i₁ x₁ h₁
    obtain ⟨y₂, hy₂, hload₂⟩ := hload' i₂ x₂ h₂
    exact h.once i₁ i₂ y₁ y₂ hy₁ hy₂ (by rw [hload₁, hload₂, hx])
  · intro i' n' phase' hi'
    rcases hback i' _ hi' with ⟨-, heq⟩ | hi'
    · cases heq
      exact ⟨load, hload, hphase.later hlater⟩
    · obtain ⟨load', hload', hphase'⟩ := h.inlinings i' n' phase' hi'
      exact ⟨load', hload', hphase'.later hlater⟩
  · intro k t ht
    obtain ⟨hasked, hnot, hphase⟩ := h.keys k t ht
    exact ⟨hasked.later hlater, hnot, hphase.later hlater⟩
  · intro l t ht
    obtain ⟨hplaced, hphase⟩ := h.locations l t ht
    exact ⟨hplaced.later hlater, hphase.later hlater⟩

theorem setKey (h : Sound lib loads r) {k : Key} {t : KeyTask} {phase : KeyPhase}
    (hlater : Later r (r.setKey k t phase))
    (hasked : Asked lib loads r t.load t.ancestry ⟨k, t.file⟩) (hnot : k.text ∉ t.ancestry)
    (hphase : phase.Sound lib r k t.file t.ancestry) :
    Sound lib loads (r.setKey k t phase) := by
  refine ⟨h.length, h.unstaged, h.once, ?_, ?_, ?_⟩
  · intro i n phase' hi
    obtain ⟨load, hload, hphase'⟩ := h.inlinings i n phase' hi
    exact ⟨load, hload, hphase'.later hlater⟩
  · intro k' t' ht'
    rw [key?_setKey] at ht'
    split at ht'
    · rename_i hkk'
      subst hkk'
      cases ht'
      exact ⟨hasked.later hlater, hnot, hphase.later hlater⟩
    · obtain ⟨hasked', hnot', hphase'⟩ := h.keys k' t' ht'
      exact ⟨hasked'.later hlater, hnot', hphase'.later hlater⟩
  · intro l t' ht'
    obtain ⟨hplaced, hphase'⟩ := h.locations l t' ht'
    exact ⟨hplaced.later hlater, hphase'.later hlater⟩

/-- A key that is there changes its phase. -/
theorem setKey_of_eq (h : Sound lib loads r) {k : Key} {t : KeyTask} {phase : KeyPhase}
    (hk : r.key? k = some t) (hopen : ∀ o, t.phase ≠ .settled o)
    (hphase : phase.Sound lib r k t.file t.ancestry) : Sound lib loads (r.setKey k t phase) := by
  obtain ⟨hasked, hnot, -⟩ := h.keys k t hk
  exact h.setKey (.setKey_of_eq phase hk hopen) hasked hnot hphase

theorem setLocation (h : Sound lib loads r) {l : Location} {t : LocationTask}
    {phase : LocationPhase} (hlater : Later r (r.setLocation l t phase))
    (hplaced : Placed lib r l t) (hphase : phase.Sound lib r l t.load (l.text :: t.ancestry)) :
    Sound lib loads (r.setLocation l t phase) := by
  refine ⟨h.length, h.unstaged, h.once, ?_, ?_, ?_⟩
  · intro i n phase' hi
    obtain ⟨load, hload, hphase'⟩ := h.inlinings i n phase' hi
    exact ⟨load, hload, hphase'.later hlater⟩
  · intro k t' ht'
    obtain ⟨hasked, hnot, hphase'⟩ := h.keys k t' ht'
    exact ⟨hasked.later hlater, hnot, hphase'.later hlater⟩
  · intro l' t' ht'
    rw [location?_setLocation] at ht'
    split at ht'
    · rename_i hll'
      subst hll'
      cases ht'
      exact ⟨hplaced.later hlater, hphase.later hlater⟩
    · obtain ⟨hplaced', hphase'⟩ := h.locations l' t' ht'
      exact ⟨hplaced'.later hlater, hphase'.later hlater⟩

/-- A location that is there changes its phase. -/
theorem setLocation_of_eq (h : Sound lib loads r) {l : Location} {t : LocationTask}
    {phase : LocationPhase} (hl : r.location? l = some t) (hopen : ∀ o, t.phase ≠ .settled o)
    (hphase : phase.Sound lib r l t.load (l.text :: t.ancestry)) :
    Sound lib loads (r.setLocation l t phase) :=
  h.setLocation (.setLocation_of_eq phase hl hopen) (h.locations l t hl).1 hphase

theorem staged_of_location (h : Sound lib loads r) {l : Location} {t : LocationTask}
    (hl : r.location? l = some t) : Staged r t.load := by
  obtain ⟨⟨tk, hk, hload, -⟩, -⟩ := h.locations l t hl
  rw [hload]
  exact (h.keys _ _ hk).1.1

/-- A branch is an import of its source. -/
theorem branch (h : Sound lib loads r) {owner : Owner} {j : Nat} {b : Branch}
    (hj : (branches r owner)[j]? = some b) : Asked lib loads r b.load b.ancestry b.target ∧
      b.phase.Sound r b.ancestry b.target.key := by
  rcases owner_of_branch hj with ⟨i, n, bs, -, hi, hb⟩ | ⟨l, t, raw, bs, -, hl, hphase, hb⟩
  · obtain ⟨load, hload, himports, hbs⟩ := h.inlinings i n _ hi
    obtain ⟨rfl, hancestry, hphase⟩ := hbs b (List.mem_of_getElem? hb)
    rw [hancestry]
    refine ⟨⟨⟨i, _, hi, nofun⟩, _, _, _, .load hload, himports, ?_⟩, hphase⟩
    exact List.mem_map_of_mem (List.mem_of_getElem? hb)
  · have hsound := (h.locations l t hl).2
    rw [hphase] at hsound
    obtain ⟨hfetch, himports, hbs⟩ := hsound
    obtain ⟨hload, hancestry, hphase⟩ := hbs b (List.mem_of_getElem? hb)
    rw [hload, hancestry]
    refine ⟨⟨h.staged_of_location hl, _, _, _, .location hl hfetch, himports, ?_⟩, hphase⟩
    exact List.mem_map_of_mem (List.mem_of_getElem? hb)

theorem setBranch (h : Sound lib loads r) {owner : Owner} {j : Nat} {b : Branch}
    {phase : BranchPhase} (hj : (branches r owner)[j]? = some b)
    (hphase : phase.Sound r b.ancestry b.target.key) :
    Sound lib loads (r.setBranch owner j phase) := by
  rcases owner_of_branch hj with ⟨i, n, bs, rfl, hi, hb⟩ | ⟨l, t, raw, bs, rfl, hl, ht, hb⟩
  · rw [setBranch_inlining hi]
    obtain ⟨load, hload, hbs⟩ := h.inlinings i n _ hi
    exact h.setInlining hi nofun hload (hbs.withPhase hb hphase)
  · rw [setBranch_location hl ht]
    have hsound := (h.locations l t hl).2
    rw [ht] at hsound
    refine h.setLocation_of_eq hl (by rw [ht]; exact nofun) ?_
    exact ⟨hsound.1, hsound.2.withPhase hb hphase⟩

end Sound

/-! ## Every transition keeps it -/

section Transition

variable {lib : Library} {loads : List Load} {r r' : Resolution}

/-- A load that waits for its first poll is not staged. -/
theorem Sound.not_staged_of_queued (h : Sound lib loads r) {i n : Nat}
    (hi : r.inlinings[i]? = some ⟨n, .queued⟩) : ¬Staged r n := by
  rintro ⟨i', phase, hi', hphase⟩
  have hii' := h.once i i' _ _ hi hi' rfl
  subst hii'
  rw [hi] at hi'
  cases hi'
  exact hphase rfl

/-- When a load is staged, it has the text it was submitted with. -/
theorem Sound.load_of_queued (h : Sound lib loads r) {i n : Nat} {load : Load}
    (hi : r.inlinings[i]? = some ⟨n, .queued⟩) (hload : r.loads[n]? = some load) :
    loads[n]? = some load := by
  rw [← h.unstaged n (h.not_staged_of_queued hi)]
  exact hload

theorem Expanding.fresh {address source : Text} {is : List Import}
    (himports : lib.imports address source = .ok is) (n : Nat) (ancestry : Ancestry) :
    Expanding lib r address source n ancestry (freshBranches is n ancestry) := by
  refine ⟨?_, fun b hb => ?_⟩
  · rw [himports, freshBranches, List.map_map]
    simp [Function.comp_def]
  · obtain ⟨i, -, rfl⟩ := List.mem_map.mp hb
    exact ⟨rfl, rfl, trivial⟩

/-- Settled branches make a settled source. -/
theorem Expanding.finished {address source : Text} {n : Nat} {ancestry : Ancestry}
    {bs : List Branch} (h : Expanding lib r address source n ancestry bs) (hbs : AllSettled bs)
    (finish : List Text → Text) :
    Finished lib r address source ancestry finish ((texts bs).map finish) := by
  refine Or.inr ⟨_, bs.map fun b => b.phase.outcome?.getD (.ok []), h.1, ?_, ?_⟩
  · rw [List.forall₂_map_left_iff, List.forall₂_map_right_iff, List.forall₂_same]
    intro b hb
    obtain ⟨o, ho⟩ := hbs b hb
    have hphase := (h.2 b hb).2.2
    rw [ho] at hphase ⊢
    exact hphase
  · rw [texts, List.mapM_map]
    rfl

/-- A source without directives is settled from the start. -/
theorem Finished.plain {address source : Text} {ancestry : Ancestry} {t : Text}
    (hscan : Directive.scan source = []) :
    Finished lib r address source ancestry (fun _ => t) (.ok t) := by
  refine Or.inr ⟨[], [], ?_, .nil, rfl⟩
  rw [Library.imports, hscan]
  rfl

theorem Sound.transition (h : Sound lib loads r) (hcoherent : Coherent lib r) {task : Task}
    (ht : Transition lib r task r') : Sound lib loads r' := by
  cases ht with
  | ended => exact h.congr rfl rfl rfl fun _ _ => rfl
  | @plain i n hi hscan =>
    have hload := List.getElem?_eq_getElem (hcoherent.loads _ (List.mem_of_getElem? hi))
    rw [loadText, hload] at hscan ⊢
    exact h.setInlining hi (by simp) (h.load_of_queued hi hload) ⟨_, .plain hscan⟩
  | refused hi hload himports =>
    refine h.setInlining hi (by simp) (h.load_of_queued hi hload) ⟨[], Or.inl ⟨_, himports, rfl⟩⟩
  | @staged i n load is hi hload _ himports =>
    have hload' := h.load_of_queued hi hload
    have hstaged : Sound lib loads
        (r.setInlining i (.expanding (freshBranches is n [load.address]))) :=
      h.setInlining hi (by simp) hload' (Expanding.fresh himports n [load.address])
    have hn : Staged (r.setInlining i (.expanding (freshBranches is n [load.address]))) n := by
      refine ⟨i, .expanding (freshBranches is n [load.address]), ?_, by simp⟩
      rw [getElem?_setInlining, if_pos rfl, hi]
      rfl
    exact hstaged.setLoadText hn (marked load.text is)
  | @inlined i n bs hi hbs =>
    obtain ⟨load, hload, hsound⟩ := h.inlinings i n _ hi
    exact h.setInlining hi (by simp) hload ⟨_, hsound.finished hbs _⟩
  | looped hj _ hmem => exact h.setBranch hj (Or.inl ⟨hmem, rfl⟩)
  | @asked owner j b pauses hj _ hnot hk =>
    have hkey : Sound lib loads
        (r.setKey b.target.key (b.keyTask pauses) (.normalizing pauses)) :=
      h.setKey (.setKey_of_none _ _ hk) (h.branch hj).1 hnot trivial
    have hj' : (branches (r.setKey b.target.key (b.keyTask pauses) (.normalizing pauses))
        owner)[j]? = some b := hj
    refine hkey.setBranch hj' ⟨hnot, ?_⟩
    rw [key?_setKey, if_pos rfl]
    rfl
  | joined hj _ hnot hk => exact h.setBranch hj ⟨hnot, by rw [hk]; rfl⟩
  | @answered owner j b own o hj hphase ho =>
    obtain ⟨hasked, hsound⟩ := h.branch hj
    rw [hphase] at hsound
    have hrelease := h.release own o hasked.1 b.target.key none
    refine hrelease.setBranch (b := b) ?_ (Or.inr ⟨hsound.1, ?_⟩)
    · rw [branches_release]
      exact hj
    · rw [keyOutcome?_release]
      exact ho
  | @searched k t phase calls hk hsearching hsearching' =>
    have hcalls : Sound lib loads { r with calls } := h.congr rfl rfl rfl fun _ _ => rfl
    exact hcalls.setKey_of_eq hk hsearching.ne_settled hsearching'.sound
  | lost hk hsearching hfind =>
    exact h.setKey_of_eq hk hsearching.ne_settled (Or.inl ⟨_, hfind, rfl⟩)
  | circled hk hsearching hfind hmem =>
    exact h.setKey_of_eq hk hsearching.ne_settled (Or.inr ⟨_, hfind, Or.inl ⟨hmem, rfl⟩⟩)
  | @opened k t l hk hsearching _ hfind hnot hl =>
    have hlocation : Sound lib loads (r.setLocation l (t.locationTask k) .queued) :=
      h.setLocation (.setLocation_of_none _ _ hl) ⟨t, hk, rfl, rfl, hfind, hnot⟩ trivial
    refine hlocation.setKey_of_eq hk hsearching.ne_settled ⟨hfind, hnot, ?_⟩
    rw [location?_setLocation, if_pos rfl]
    rfl
  | shared hk hsearching _ hfind hnot hl =>
    exact h.setKey_of_eq hk hsearching.ne_settled ⟨hfind, hnot, by rw [hl]; rfl⟩
  | @passed k t l own o hk hphase ho =>
    obtain ⟨hasked, -, hsound⟩ := h.keys k t hk
    rw [hphase] at hsound
    have hrelease := h.release own o hasked.1 k (some l)
    refine hrelease.setKey_of_eq (by rw [key?_release]; exact hk) (by simp [hphase]) ?_
    refine Or.inr ⟨l, hsound.1, Or.inr ⟨hsound.2.1, ?_⟩⟩
    rw [locationOutcome?_release]
    exact ho
  | @requested l t pause calls hl hphase =>
    have hcalls : Sound lib loads { r with calls, fetched := r.fetched ++ [l.text] } :=
      h.congr rfl rfl rfl fun _ _ => rfl
    exact hcalls.setLocation_of_eq hl (by simp [hphase]) trivial
  | awaited hl hphase =>
    exact h.setLocation_of_eq hl (by simp [hphase]) trivial
  | missing hl hphase hfetch =>
    exact h.setLocation_of_eq hl (by simp [hphase]) (Or.inl ⟨_, hfetch, rfl⟩)
  | @spoiled l t _ raw fault kind hl hphase hfetch himports =>
    have hemit : Sound lib loads (emit r kind) := h.congr rfl rfl rfl fun _ _ => rfl
    refine hemit.setLocation_of_eq hl (by simp [hphase]) ?_
    exact Or.inr ⟨raw, hfetch, Or.inl ⟨fault, himports, rfl⟩⟩
  | @expanded l t _ raw is kind hl hphase hfetch himports =>
    have hemit : Sound lib loads (emit r kind) := h.congr rfl rfl rfl fun _ _ => rfl
    have hload : Sound lib loads (substitute (emit r kind) t.load t.key (marked raw is)) :=
      hemit.setLoadText (h.staged_of_location hl) _
    refine hload.setLocation_of_eq hl (by simp [hphase]) ⟨hfetch, ?_⟩
    exact Expanding.fresh himports _ _
  | @filled l t raw bs hl hphase hbs =>
    have hsound := (h.locations l t hl).2
    rw [hphase] at hsound
    refine h.setLocation_of_eq hl (by simp [hphase]) (Or.inr ⟨raw, hsound.1, ?_⟩)
    exact hsound.2.finished hbs _

theorem Origin.submit {n : Nat} {ancestry : Ancestry} {address source : Text}
    (h : Origin lib loads r n ancestry address source) (load : Load) :
    Origin lib (loads ++ [load]) (r.addLoad load) n ancestry address source := by
  cases h with
  | load hload => exact .load (getElem?_append_of_eq_some hload [load])
  | location hl hfetch => exact Origin.location hl hfetch

/-- A load more leaves the others as they are. -/
theorem Sound.addLoad (h : Sound lib loads r) (load : Load) :
    Sound lib (loads ++ [load]) (r.addLoad load) := by
  have hlater : Later r (r.addLoad load) := .of_eq rfl rfl
  have hlength : (r.addLoad load).loads.length = (loads ++ [load]).length := by
    simp [Resolution.addLoad, h.length]
  refine ⟨hlength, fun n hn => ?_, h.once, ?_, ?_, ?_⟩
  · have hn' := h.unstaged n hn
    rw [Resolution.addLoad, List.getElem?_append, List.getElem?_append, hn', h.length]
  · intro i n phase hi
    obtain ⟨load', hload', hphase⟩ := h.inlinings i n phase hi
    exact ⟨load', getElem?_append_of_eq_some hload' [load], hphase.later hlater⟩
  · intro k t ht
    obtain ⟨⟨hstaged, address, source, is, horigin, himports, hi⟩, hnot, hphase⟩ := h.keys k t ht
    refine ⟨⟨hstaged, address, source, is, horigin.submit load, himports, hi⟩, hnot, ?_⟩
    exact hphase.later hlater
  · intro l t ht
    obtain ⟨hplaced, hphase⟩ := h.locations l t ht
    exact ⟨hplaced.later hlater, hphase.later hlater⟩

/-- A load that begins waits for its first poll. -/
theorem Sound.begin (h : Sound lib loads r) {n : Nat} (hn : n < loads.length)
    (honce : ∀ x ∈ r.inlinings, x.load ≠ n) : Sound lib loads (r.begin n) := by
  have hlater : Later r (r.begin n) := .begin r n
  have hback : ∀ (i : Nat) (x : Inlining), (r.begin n).inlinings[i]? = some x →
      r.inlinings[i]? = some x ∨ i = r.inlinings.length ∧ x = ⟨n, .queued⟩ := by
    intro i x hx
    rw [Resolution.begin, List.getElem?_append] at hx
    split at hx
    · exact Or.inl hx
    · obtain ⟨hi, rfl⟩ := List.getElem?_eq_some_iff.mp hx
      rw [List.length_singleton] at hi
      refine Or.inr ⟨by omega, ?_⟩
      simp
  refine ⟨h.length, fun n' hn' => ?_, ?_, ?_, ?_, ?_⟩
  · exact h.unstaged n' fun hstaged => hn' (hlater.staged n' hstaged)
  · intro i i' x x' hi hi' hx
    rcases hback i x hi with hi | ⟨rfl, rfl⟩ <;> rcases hback i' x' hi' with hi' | ⟨rfl, rfl⟩
    · exact h.once i i' x x' hi hi' hx
    · exact absurd hx (honce x (List.mem_of_getElem? hi))
    · exact absurd hx.symm (honce x' (List.mem_of_getElem? hi'))
    · rfl
  · intro i n' phase hi
    rcases hback i _ hi with hi | ⟨-, heq⟩
    · obtain ⟨load, hload, hphase⟩ := h.inlinings i n' phase hi
      exact ⟨load, hload, hphase.later hlater⟩
    · cases heq
      exact ⟨loads[n], List.getElem?_eq_getElem hn, trivial⟩
  · intro k t ht
    obtain ⟨hasked, hnot, hphase⟩ := h.keys k t ht
    exact ⟨hasked.later hlater, hnot, hphase.later hlater⟩
  · intro l t ht
    obtain ⟨hplaced, hphase⟩ := h.locations l t ht
    exact ⟨hplaced.later hlater, hphase.later hlater⟩

/-- In every state that comes about, tasks have their reasons and outcomes their origins. -/
theorem Reached.sound (h : Reached lib loads r) : Sound lib loads r := by
  induction h with
  | start =>
    refine ⟨rfl, fun n _ => rfl, ?_, ?_, ?_, ?_⟩
    · rintro i i' x x' ⟨⟩
    · rintro i n phase ⟨⟩
    · rintro k t ⟨⟩
    · rintro l t ⟨⟩
  | submit load _ ih => exact ih.addLoad load
  | begin n _ hn honce ih => exact ih.begin hn honce
  | poll hr hcan ih =>
    have hcoherent := hr.coherent.1
    exact ih.transition hcoherent (transition_of_canStep hcoherent hcan)
  | elsewhere world _ _ ih => exact ih.congr rfl rfl rfl fun _ _ => rfl

end Transition

end StyleBatch.Resolution
