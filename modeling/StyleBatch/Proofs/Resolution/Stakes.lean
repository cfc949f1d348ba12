import StyleBatch.Proofs.Resolution.Later
import StyleBatch.Proofs.Resolution.Total

/-!
# What tasks have at stake

A task has something at stake for its load: a placeholder that it owes, a task that it has started
and waits for, or the fault it has ended in.  `stakes` adds this up.

* `Transition.trade`: every transition trades the stakes of one load, faults or not.
* `Reached.started`: a task is started for the load of whoever waits for it.
-/

namespace StyleBatch.Resolution

/-- What a task has at stake for its load. -/
inductive Stake where
  | owed (k : Key)
  | fault
  /-- The task of a key that it has started and waits for. -/
  | key (k : Key)
  | location (l : Location)
deriving DecidableEq

/-- What is held for a load. -/
def held (n : Nat) (s : Multiset Stake) : Multiset (Nat × Stake) :=
  s.map fun stake => (n, stake)

theorem mem_held {n : Nat} {s : Multiset Stake} {x : Nat × Stake} :
    x ∈ held n s ↔ x.1 = n ∧ x.2 ∈ s := by
  obtain ⟨m, stake⟩ := x
  rw [held, Multiset.mem_map]
  constructor
  · rintro ⟨_, hmem, heq⟩
    cases heq
    exact ⟨rfl, hmem⟩
  · rintro ⟨rfl, hmem⟩
    exact ⟨stake, hmem, rfl⟩

/-- An outcome may be a fault. -/
def faults : Outcome → Multiset Stake
  | .error _ => {.fault}
  | .ok _ => 0

theorem mem_faults {o : Outcome} {stake : Stake} :
    stake ∈ faults o ↔ stake = .fault ∧ ∃ fault, o = .error fault := by
  cases o <;> simp [faults]

/-- Who has started what it waits for has that at stake; who came second owes the placeholder. -/
def waiting (own : Bool) (started : Stake) (k : Key) : Stake :=
  if own then started else .owed k

def BranchPhase.stakes (k : Key) : BranchPhase → Multiset Stake
  | .fresh => {.owed k}
  | .reserved own => {waiting own (.key k) k}
  | .settled o => faults o

def KeyPhase.stakes (k : Key) : KeyPhase → Multiset Stake
  | .normalizing _ => {.owed k}
  | .locating .. => {.owed k}
  | .reserved l own => {waiting own (.location l) k}
  | .settled o => faults o

def Branch.stakes (b : Branch) : Multiset (Nat × Stake) :=
  held b.load (b.phase.stakes b.target.key)

/-- What the branches of a source have at stake. -/
def branchesStakes (bs : List Branch) : Multiset (Nat × Stake) :=
  (bs.map Branch.stakes).sum

def LocationTask.stakes (t : LocationTask) : Multiset (Nat × Stake) :=
  match t.phase with
  | .expanding _ bs => branchesStakes bs
  | .settled o => held t.load (faults o)
  | _ => held t.load {.owed t.key}

def Inlining.stakes (x : Inlining) : Multiset (Nat × Stake) :=
  match x.phase with
  | .queued => 0
  | .expanding bs => branchesStakes bs
  | .settled o => held x.load (faults o)

theorem Inlining.stakes_expanding (n : Nat) (bs : List Branch) :
    Inlining.stakes ⟨n, .expanding bs⟩ = branchesStakes bs := rfl

theorem LocationTask.stakes_of_expanding {t : LocationTask} {raw : Text} {bs : List Branch}
    (h : t.phase = .expanding raw bs) : t.stakes = branchesStakes bs := by
  rw [stakes, h]

theorem LocationTask.stakes_of_fetching {t : LocationTask} {pause : Pause Outcome}
    (h : t.phase = .fetching pause) : t.stakes = held t.load {.owed t.key} := by
  rw [stakes, h]

/-- Tasks count for what they have at stake. -/
def stakeWeight : Weight (Multiset (Nat × Stake)) where
  key k t := held t.load (t.phase.stakes k)
  location _ t := t.stakes
  inlining x := x.stakes
  branch b := b.stakes
  source := 0
  location_expanding _ _ _ _ _ _ := (zero_add _).symm
  inlining_expanding _ _ := (zero_add _).symm

/-- All that is at stake. -/
def stakes (r : Resolution) : Multiset (Nat × Stake) :=
  total stakeWeight r

/-! ## Trades -/

/-- A source that works on a load has these branches. -/
def Splits (r : Resolution) (n : Nat) (bs : List Branch) : Prop :=
  (∃ i : Nat, r.inlinings[i]? = some ⟨n, .expanding bs⟩) ∨
    ∃ l t raw, r.location? l = some t ∧ t.load = n ∧ t.phase = .expanding raw bs

/-- A stake that a fault can take the place of. -/
def Doomed (r : Resolution) : Stake → Prop
  | .owed _ => True
  | .fault => True
  | .key k => ∃ fault, keyOutcome? r k = some (.error fault)
  | .location l => ∃ fault, locationOutcome? r l = some (.error fault)

/-- What goes and what comes for the load that a transition is about, and what happens to the
texts meanwhile. -/
inductive Trade (lib : Library) (r r' : Resolution) (n : Nat) :
    Multiset (Nat × Stake) → Multiset (Nat × Stake) → Prop
  | idle : r'.loads = r.loads → Trade lib r r' n 0 0
  /-- A task is settled; if it ends in a fault, it had something to lose. -/
  | settled {stake : Stake} {o : Outcome} : r'.loads = r.loads →
      ((∃ fault, o = .error fault) → Doomed r stake) →
      Trade lib r r' n {(n, stake)} (held n (faults o))
  /-- A source is settled by its branches. -/
  | gathered {bs : List Branch} {o : Outcome} : r'.loads = r.loads → Splits r n bs → AllSettled bs →
      ((∃ fault, o = .error fault) → ∃ b ∈ bs, ∃ fault, b.phase = .settled (.error fault)) →
      Trade lib r r' n (branchesStakes bs) (held n (faults o))
  | refused {i : Nat} {load : Load} {fault : Fault} : r.inlinings[i]? = some ⟨n, .queued⟩ →
      r.loads[n]? = some load → lib.imports load.address load.text = .error fault →
      r'.loads = r.loads → Trade lib r r' n 0 {(n, .fault)}
  /-- A task is started. -/
  | key {k : Key} {t : KeyTask} : r'.loads = r.loads → r'.key? k = some t → t.load = n →
      Trade lib r r' n {(n, .owed k)} {(n, .owed k), (n, .key k)}
  | location {k : Key} {l : Location} {t : LocationTask} : r'.loads = r.loads →
      r'.location? l = some t → t.load = n →
      Trade lib r r' n {(n, .owed k)} {(n, .owed k), (n, .location l)}
  | staged {i : Nat} {load : Load} {is : List Import} : r.inlinings[i]? = some ⟨n, .queued⟩ →
      r.loads[n]? = some load → Directive.scan load.text ≠ [] →
      lib.imports load.address load.text = .ok is →
      r'.loads = (r.setLoadText n (marked load.text is)).loads →
      Trade lib r r' n 0 ↑(is.map fun i => (n, Stake.owed i.key))
  | cleared {k : Key} : r'.loads = (r.substitute n k []).loads → Trade lib r r' n {(n, .owed k)} 0
  | entered {l : Location} {t : LocationTask} {raw : Text} {is : List Import} :
      r.location? l = some t → t.load = n → lib.fetch l = .ok raw →
      lib.imports l.text raw = .ok is → r'.loads = (r.substitute n t.key (marked raw is)).loads →
      Trade lib r r' n {(n, .owed t.key)} ↑(is.map fun i => (n, Stake.owed i.key))

/-- From one state to the other, stakes of one load are traded. -/
def Traded (lib : Library) (r r' : Resolution) : Prop :=
  ∃ n old new, stakes r' + old = stakes r + new ∧ (∀ x ∈ old, x ∈ stakes r) ∧
    Trade lib r r' n old new

section Transition

variable {lib : Library} {r r' : Resolution} {n : Nat}

/-- What is at stake was at stake before, or has come. -/
theorem mem_stakes {old new : Multiset (Nat × Stake)} (hstakes : stakes r' + old = stakes r + new)
    {x : Nat × Stake} (hx : x ∈ stakes r') : x ∈ stakes r ∨ x ∈ new :=
  Multiset.mem_add.mp (hstakes ▸ Multiset.mem_add.mpr (Or.inl hx))

/-! ### What is written -/

theorem stakes_setKey {k : Key} {t : KeyTask} (hk : r.key? k = some t) (phase : KeyPhase) :
    stakes (r.setKey k t phase) + held t.load (t.phase.stakes k) =
      stakes r + held t.load (phase.stakes k) :=
  total_setKey stakeWeight hk phase

theorem stakes_setLocation {l : Location} {t : LocationTask} (hl : r.location? l = some t)
    (phase : LocationPhase) :
    stakes (r.setLocation l t phase) + t.stakes = stakes r + { t with phase }.stakes :=
  total_setLocation stakeWeight hl phase

theorem stakes_setInlining {i : Nat} {old : InliningPhase} (hi : r.inlinings[i]? = some ⟨n, old⟩)
    (phase : InliningPhase) : stakes (r.setInlining i phase) + Inlining.stakes ⟨n, old⟩ =
      stakes r + Inlining.stakes ⟨n, phase⟩ :=
  total_setInlining stakeWeight hi phase

theorem stakes_setBranch {owner : Owner} {j : Nat} {b : Branch}
    (hj : (branches r owner)[j]? = some b) (phase : BranchPhase) :
    stakes (r.setBranch owner j phase) + b.stakes = stakes r + { b with phase }.stakes :=
  total_setBranch stakeWeight hj phase

theorem stakes_release (own : Bool) (o : Outcome) (k : Key) (location : Option Location) :
    stakes (r.release own o n k location) = stakes r :=
  total_congr _ (cache_release ..) (inlinings_release ..)

theorem held_singleton (n : Nat) (stake : Stake) : held n {stake} = {(n, stake)} :=
  Multiset.map_singleton ..

theorem KeyPhase.Searching.stakes {calls : DiskCalls} {k : Key} {file : Text} {phase : KeyPhase}
    (h : phase.Searching lib calls k file) : phase.stakes k = {.owed k} := by
  cases phase with
  | normalizing | locating => rfl
  | reserved | settled => exact h.elim

/-- Fresh branches owe the placeholders of their imports. -/
theorem branchesStakes_freshBranches (is : List Import) (n : Nat) (ancestry : Ancestry) :
    branchesStakes (freshBranches is n ancestry) = ↑(is.map fun i => (n, Stake.owed i.key)) := by
  induction is with
  | nil => rfl
  | cons i is ih =>
    rw [branchesStakes, freshBranches, List.map_cons, List.map_cons, List.sum_cons] at *
    rw [ih]
    rfl

/-- Where texts cannot be had, a branch has ended in a fault. -/
theorem exists_fault_of_texts {bs : List Branch} {finish : List Text → Text}
    (h : ∃ fault, (texts bs).map finish = .error fault) :
    ∃ b ∈ bs, ∃ fault, b.phase = .settled (.error fault) := by
  obtain ⟨fault, h⟩ := h
  cases htexts : texts bs with
  | ok ts =>
    rw [htexts] at h
    cases h
  | error fault =>
    obtain ⟨b, hb, hfault⟩ := exists_of_mapM_eq_error htexts
    refine ⟨b, hb, fault, ?_⟩
    cases hphase : b.phase with
    | settled o =>
      rw [hphase] at hfault
      exact congrArg _ hfault
    | _ =>
      rw [hphase] at hfault
      cases hfault

/-- A task that owes a placeholder ends in a fault. -/
theorem Trade.failed {k : Key} (fault : Fault) (hloads : r'.loads = r.loads) :
    Trade lib r r' n {(n, .owed k)} (held n (faults (.error fault))) :=
  .settled hloads fun _ => trivial

/-- Whoever is answered has cleared its placeholder, if it came second and there is a text. -/
theorem Trade.of_release {own : Bool} {started : Stake} {o : Outcome} {k : Key}
    (location : Option Location) (hloads : r'.loads = (r.release own o n k location).loads)
    (hdoomed : (∃ fault, o = .error fault) → Doomed r started) :
    Trade lib r r' n {(n, waiting own started k)} (held n (faults o)) := by
  cases own with
  | true => exact .settled hloads hdoomed
  | false =>
    cases o with
    | ok text => exact .cleared hloads
    | error fault => exact .failed fault hloads

/-! ### One place that changes -/

theorem Traded.of_loads (hloads : r'.loads = r.loads) (heq : stakes r' = stakes r) :
    Traded lib r r' :=
  ⟨0, 0, 0, by rw [heq], fun _ hx => absurd hx (Multiset.notMem_zero _), .idle hloads⟩

theorem Traded.of_key {k : Key} {t : KeyTask} {stake : Stake} {new : Multiset (Nat × Stake)}
    (hk : r.key? k = some t) (hstake : t.phase.stakes k = {stake})
    (hstakes : stakes r' + held t.load (t.phase.stakes k) = stakes r + new)
    (htrade : Trade lib r r' t.load {(t.load, stake)} new) : Traded lib r r' := by
  have hmem : ∀ x ∈ held t.load (t.phase.stakes k), x ∈ stakes r :=
    fun x hx => mem_total_of_key hk hx
  rw [hstake, held_singleton] at hstakes hmem
  exact ⟨t.load, _, new, hstakes, hmem, htrade⟩

theorem Traded.of_location {l : Location} {t : LocationTask} {old new : Multiset (Nat × Stake)}
    (hl : r.location? l = some t) (hold : t.stakes = old)
    (hstakes : stakes r' + t.stakes = stakes r + new)
    (htrade : Trade lib r r' t.load old new) : Traded lib r r' := by
  subst hold
  exact ⟨t.load, _, new, hstakes, fun x hx => mem_total_of_location hl hx, htrade⟩

theorem Traded.of_branch {owner : Owner} {j : Nat} {b : Branch} {stake : Stake}
    {new : Multiset (Nat × Stake)} (hj : (branches r owner)[j]? = some b)
    (hstake : b.phase.stakes b.target.key = {stake})
    (hstakes : stakes r' + b.stakes = stakes r + new)
    (htrade : Trade lib r r' b.load {(b.load, stake)} new) : Traded lib r r' := by
  have hmem : ∀ x ∈ b.stakes, x ∈ stakes r := fun x hx => mem_total_of_branch hj hx
  rw [Branch.stakes, hstake, held_singleton] at hstakes hmem
  exact ⟨b.load, _, new, hstakes, hmem, htrade⟩

/-- Every transition trades the stakes of one load. -/
theorem Transition.trade {task : Task} (ht : Transition lib r task r') : Traded lib r r' := by
  cases ht with
  | ended => exact .of_loads rfl rfl
  | @plain i n hi =>
    exact ⟨n, 0, 0, stakes_setInlining hi (.settled (.ok (loadText r n))), by simp, .idle rfl⟩
  | @refused i n load fault hi hload himports =>
    have hstakes := stakes_setInlining hi (.settled (.error fault))
    exact ⟨n, 0, _, hstakes, by simp, .refused hi hload himports rfl⟩
  | @staged i n load is hi hload hscan himports =>
    have hi' : (setLoadText r n (marked load.text is)).inlinings[i]? = some ⟨n, .queued⟩ := hi
    have hstakes := stakes_setInlining hi' (.expanding (freshBranches is n [load.address]))
    rw [Inlining.stakes_expanding, branchesStakes_freshBranches] at hstakes
    exact ⟨n, 0, _, hstakes, by simp, .staged hi hload hscan himports rfl⟩
  | @inlined i n bs hi hbs =>
    refine ⟨n, branchesStakes bs, _, stakes_setInlining hi _, fun x hx => ?_, ?_⟩
    · exact mem_total_of_inlining hi hx
    · exact .gathered rfl (Or.inl ⟨i, hi⟩) hbs exists_fault_of_texts
  | @filled l t raw bs hl hphase hbs =>
    exact .of_location hl (LocationTask.stakes_of_expanding hphase) (stakes_setLocation hl _)
      (.gathered rfl (Or.inr ⟨l, t, raw, hl, rfl, hphase⟩) hbs exists_fault_of_texts)
  | @looped owner j b hj hphase =>
    exact .of_branch hj (by rw [hphase]; rfl) (stakes_setBranch hj _)
      (.failed (b.ancestry.circular b.target.key.text) (loads_setBranch ..))
  | @asked owner j b pauses hj hphase _ hk =>
    have hkey : stakes (r.setKey b.target.key (b.keyTask pauses) (.normalizing pauses)) =
        stakes r + held b.load {.owed b.target.key} := total_setKey_of_none stakeWeight hk _ _
    have hstakes := stakes_setBranch
      (r := r.setKey b.target.key (b.keyTask pauses) (.normalizing pauses)) hj (.reserved true)
    rw [hkey, held_singleton, add_assoc] at hstakes
    have hasked : ((r.setKey b.target.key (b.keyTask pauses) (.normalizing pauses)).setBranch
        owner j (.reserved true)).key? b.target.key = some (b.keyTask pauses) := by
      rw [key?_setBranch, key?_setKey, if_pos rfl]
      rfl
    refine .of_branch hj (by rw [hphase]; rfl) hstakes (.key ?_ hasked rfl)
    rw [loads_setBranch, loads_setKey]
  | @joined owner j b t hj hphase =>
    have hstakes := stakes_setBranch hj (.reserved false)
    rw [Branch.stakes, hphase] at hstakes
    exact .of_loads (loads_setBranch ..) (add_right_cancel hstakes)
  | @answered owner j b own o hj hphase ho =>
    have hstakes := stakes_setBranch (r := r.release own o b.load b.target.key none)
      (by rw [branches_release]; exact hj) (.settled o)
    rw [stakes_release] at hstakes
    refine .of_branch hj (by rw [hphase]; rfl) hstakes (.of_release none (loads_setBranch ..) ?_)
    rintro ⟨fault, rfl⟩
    exact ⟨fault, ho⟩
  | @searched k t phase calls hk hsearching hsearching' =>
    have hstakes := stakes_setKey (r := { r with calls }) hk phase
    rw [hsearching.stakes, hsearching'.stakes] at hstakes
    exact .of_loads rfl (add_right_cancel hstakes)
  | @lost k t fault hk hsearching =>
    exact .of_key hk hsearching.stakes (stakes_setKey hk _) (.failed fault rfl)
  | @circled k t l hk hsearching =>
    exact .of_key hk hsearching.stakes (stakes_setKey hk _)
      (.failed (t.ancestry.circular l.text) rfl)
  | @opened k t l hk hsearching _ _ _ hl =>
    have hlocation : stakes (r.setLocation l (t.locationTask k) .queued) =
        stakes r + held t.load {.owed k} := total_setLocation_of_none stakeWeight hl _ _
    have hstakes := stakes_setKey (r := r.setLocation l (t.locationTask k) .queued) hk
      (.reserved l true)
    rw [hlocation, held_singleton, add_assoc] at hstakes
    have hopened : ((r.setLocation l (t.locationTask k) .queued).setKey k t
        (.reserved l true)).location? l = some (t.locationTask k) := by
      rw [location?_setKey, location?_setLocation, if_pos rfl]
      rfl
    exact .of_key hk hsearching.stakes hstakes (.location rfl hopened rfl)
  | @shared k t l u hk hsearching =>
    have hstakes := stakes_setKey hk (.reserved l false)
    rw [hsearching.stakes] at hstakes
    exact .of_loads rfl (add_right_cancel hstakes)
  | @passed k t l own o hk hphase ho =>
    have hstakes := stakes_setKey (r := r.release own o t.load k (some l))
      (by rw [key?_release]; exact hk) (.settled o)
    rw [stakes_release] at hstakes
    refine .of_key hk (by rw [hphase]; rfl) hstakes (.of_release (some l) rfl ?_)
    rintro ⟨fault, rfl⟩
    exact ⟨fault, ho⟩
  | @requested l t pause calls hl hphase =>
    have hstakes := stakes_setLocation (r := { r with calls, fetched := r.fetched ++ [l.text] }) hl
      (.fetching pause)
    rw [LocationTask.stakes, hphase] at hstakes
    exact .of_loads rfl (add_right_cancel hstakes)
  | @awaited l t pause pause' hl hphase =>
    have hstakes := stakes_setLocation hl (.fetching pause')
    rw [LocationTask.stakes, hphase] at hstakes
    exact .of_loads rfl (add_right_cancel hstakes)
  | @missing l t pause fault hl hphase =>
    exact .of_location hl (LocationTask.stakes_of_fetching hphase) (stakes_setLocation hl _)
      (.failed fault rfl)
  | @spoiled l t pause raw fault kind hl hphase =>
    exact .of_location hl (LocationTask.stakes_of_fetching hphase)
      (stakes_setLocation (r := emit r kind) hl _) (.failed fault rfl)
  | @expanded l t pause raw is kind hl hphase hfetch himports =>
    have hstakes := stakes_setLocation (r := substitute (emit r kind) t.load t.key (marked raw is))
      hl (.expanding raw (freshBranches is t.load (l.text :: t.ancestry)))
    rw [LocationTask.stakes_of_expanding (t := { t with phase := .expanding raw _ }) rfl,
      branchesStakes_freshBranches] at hstakes
    exact .of_location hl (LocationTask.stakes_of_fetching hphase) hstakes
      (.entered hl rfl hfetch himports rfl)

end Transition

/-! ## Who waits for whom -/

/-- The task of a key or location that was started was started for the load. -/
def Started (r : Resolution) (x : Nat × Stake) : Prop :=
  match x.2 with
  | .owed _ => True
  | .fault => True
  | .key k => ∃ t, r.key? k = some t ∧ t.load = x.1
  | .location l => ∃ t, r.location? l = some t ∧ t.load = x.1

section Started

variable {lib : Library} {loads : List Load} {r r' : Resolution}

theorem Started.later {x : Nat × Stake} (h : Started r x) (hlater : Later r r') : Started r' x := by
  obtain ⟨n, stake⟩ := x
  cases stake with
  | owed | fault => trivial
  | key k =>
    obtain ⟨t, hk, hload⟩ := h
    obtain ⟨phase, hk', -⟩ := hlater.key k t hk
    exact ⟨_, hk', hload⟩
  | location l =>
    obtain ⟨t, hl, hload⟩ := h
    obtain ⟨phase, hl', -⟩ := hlater.location l t hl
    exact ⟨_, hl', hload⟩

/-- What comes with a trade has been started for the load. -/
theorem Trade.started {n : Nat} {old new : Multiset (Nat × Stake)}
    (h : Trade lib r r' n old new) : ∀ x ∈ new, Started r' x := by
  have hfaults : ∀ {o : Outcome}, ∀ x ∈ held n (faults o), Started r' x := by
    rintro o ⟨m, stake⟩ hx
    obtain ⟨rfl, -⟩ := mem_faults.mp (mem_held.mp hx).2
    trivial
  have himports : ∀ {is : List Import},
      ∀ x ∈ (↑(is.map fun i => (n, Stake.owed i.key)) : Multiset (Nat × Stake)), Started r' x := by
    intro is x hx
    obtain ⟨i, -, rfl⟩ := List.mem_map.mp (Multiset.mem_coe.mp hx)
    trivial
  cases h with
  | idle | cleared => exact fun _ hx => absurd hx (Multiset.notMem_zero _)
  | settled | gathered => exact hfaults
  | refused =>
    intro x hx
    rw [Multiset.mem_singleton.mp hx]
    trivial
  | @key k t _ hk hload =>
    intro x hx
    simp only [Multiset.insert_eq_cons, Multiset.mem_cons, Multiset.mem_singleton] at hx
    rcases hx with rfl | rfl
    · trivial
    · exact ⟨t, hk, hload⟩
  | @location k l t _ hl hload =>
    intro x hx
    simp only [Multiset.insert_eq_cons, Multiset.mem_cons, Multiset.mem_singleton] at hx
    rcases hx with rfl | rfl
    · trivial
    · exact ⟨t, hl, hload⟩
  | staged | entered => exact himports

/-- In every state that comes about, whoever waits for a task that it has started works on the
same load as that task. -/
theorem Reached.started (h : Reached lib loads r) : ∀ x ∈ stakes r, Started r x := by
  induction h with
  | start => exact fun _ hx => absurd hx (Multiset.notMem_zero _)
  | submit load _ ih => exact fun x hx => (ih x hx).later (.of_eq rfl rfl)
  | begin n _ _ _ ih =>
    intro x hx
    rw [stakes, total_begin] at hx
    rcases Multiset.mem_add.mp hx with hx | hx
    · exact (ih x hx).later (.begin _ n)
    · exact absurd hx (Multiset.notMem_zero _)
  | poll hr hcan ih =>
    have ht := transition_of_canStep hr.coherent.1 hcan
    obtain ⟨n, old, new, hstakes, -, htrade⟩ := ht.trade
    intro x hx
    rcases mem_stakes hstakes hx with hx | hx
    · exact (ih x hx).later ht.later
    · exact htrade.started x hx
  | elsewhere world _ _ ih => exact fun x hx => (ih x hx).later (.of_eq rfl rfl)

end Started

end StyleBatch.Resolution
