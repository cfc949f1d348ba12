import StyleBatch.Proofs.Resolution.Claims
import StyleBatch.Proofs.Resolution.Effect

/-!
# Which event a claim leads to

A claim on an entry that was taken leads to an event once the resolution of that entry has ended, a
claim on a free location once the location is fetched.  A claim on a free key leads to none itself:
the search for its location goes on to claim that.

* `Transition.searches`: a free key that is claimed is searched for until it claims its location.
* `Transition.events`: the event of a claim is pending until the log has it.
-/

namespace StyleBatch

open Resolution

/-- The length of the text at a location. -/
def Library.byteSize (lib : Library) (l : Location) : Nat :=
  match lib.fetch l with
  | .ok raw => Text.byteSize raw
  | .error _ => 0

/-- What the import of a directive is answered by: the resolution of its key, which was there, that
of the location of its key, which was there, or the fetch of its location. -/
inductive Attachment where
  | key
  | location (l : Location)
  | fetch (l : Location)
deriving DecidableEq

namespace Attachment

/-- The event of an import under a key. -/
def event (lib : Library) (k : Key) : Attachment → EventKind
  | key => .importShared k.text none
  | location l => .importShared k.text (some l.text)
  | fetch l => .importFetched k.text l.text (lib.byteSize l)

def fetched? : Attachment → Option Text
  | fetch l => some l.text
  | _ => none

end Attachment

/-- What a claim on a location attaches its key to. -/
def Claim.attachment? : Claim → Option (Key × Attachment)
  | key .. => none
  | location k l true => some (k, .fetch l)
  | location k l false => some (k, .location l)

/-- The event that a claim leads to. -/
def Claim.event? (lib : Library) : Claim → Option EventKind
  | key o false => some (Attachment.key.event lib o.target.key)
  | key _ true => none
  | location k l true => some ((Attachment.fetch l).event lib k)
  | location k l false => some ((Attachment.location l).event lib k)

namespace Resolution

variable {lib : Library} {loads : List Load} {r r' : Resolution} {task : Task}

/-! ## Searches -/

/-- A key that has not claimed a location. -/
def KeyTask.searches (k : Key) (t : KeyTask) : Multiset Key :=
  match t.phase with
  | .normalizing _ => {k}
  | .locating .. => {k}
  | _ => 0

/-- The keys that have not claimed a location. -/
def searches (r : Resolution) : Multiset Key :=
  (r.cache.keys.map fun e => e.2.searches e.1).sum

theorem searches_congr (h : r'.cache.keys = r.cache.keys) : searches r' = searches r := by
  rw [searches, searches, h]

theorem searches_setKey {k : Key} {t : KeyTask} (hk : r.key? k = some t) (phase : KeyPhase) :
    searches (r.setKey k t phase) + t.searches k = searches r + { t with phase }.searches k :=
  Table.sum_set (fun k t => t.searches k) hk { t with phase }

theorem KeyPhase.Searching.searches {calls : DiskCalls} {k : Key} {t : KeyTask}
    (h : t.phase.Searching lib calls k t.file) : t.searches k = {k} := by
  obtain ⟨file, n, ancestry, phase⟩ := t
  cases phase with
  | normalizing | locating => rfl
  | reserved | settled => exact h.elim

/-- A new key is searched for until it claims a location. -/
theorem Transition.searches (ht : Transition lib r task r') (hf : ∀ n, Faultless lib loads r' n) :
    searches r' + ↑((claim? r r' task).toList.filterMap Claim.finder?) =
      searches r + ↑((claim? r r' task).toList.filterMap Claim.newKey?) := by
  have hf' : ∀ n, Faultless lib loads r n := fun n => (hf n).of_later ht.later
  cases ht with
  | @looped owner j b hj hphase hmem =>
    rw [claim?_branch_eq_none hj fun _ => hmem]
    exact congrArg (· + 0) (searches_congr (keys_setBranch ..).1)
  | @asked owner j b pauses hj hphase hnot hk =>
    rw [claim?_branch hj hphase hnot, hk, searches_congr (keys_setBranch ..).1]
    exact (add_zero _).trans (Table.sum_set_new (fun k t => KeyTask.searches k t) hk _)
  | joined hj hphase hnot hk =>
    rw [claim?_branch hj hphase hnot, hk]
    exact congrArg (· + 0) (searches_congr (keys_setBranch ..).1)
  | answered hj hphase =>
    rw [claim?_branch_eq_none hj (by simp [hphase])]
    refine congrArg (· + 0) (searches_congr ((keys_setBranch ..).1.trans ?_))
    rw [cache_release]
  | @searched k t phase calls hk hsearching hsearching' =>
    have hset := searches_setKey (r := { r with calls }) hk phase
    rw [hsearching.searches,
      KeyPhase.Searching.searches (t := { t with phase }) hsearching'] at hset
    rw [claim?_searching hsearching']
    exact congrArg (· + 0) (add_right_cancel hset)
  | @lost k t fault hk _ hfind => exact absurd hfind ((hf' t.load).find_ne_error hk)
  | @circled k t l hk _ hfind hmem => exact absurd hmem ((hf' t.load).found hk hfind).1
  | @opened k t l hk hsearching =>
    have hset := searches_setKey (r := r.setLocation l (t.locationTask k) .queued) hk
      (.reserved l true)
    rw [hsearching.searches] at hset
    rw [claim?_reserved]
    exact hset
  | @shared k t l u hk hsearching =>
    have hset := searches_setKey hk (.reserved l false)
    rw [hsearching.searches] at hset
    rw [claim?_reserved]
    exact hset
  | @passed k t l own o hk hphase ho =>
    have hset := searches_setKey (r := r.release own o t.load k (some l))
      (by rw [key?_release]; exact hk) (.settled o)
    have hsame : (r.release own o t.load k (some l)).searches = r.searches :=
      searches_congr (by rw [cache_release])
    rw [KeyTask.searches, hphase, hsame] at hset
    rw [claim?_settled]
    exact hset
  | _ => rfl

/-! ## Pending events -/

/-- The event of a branch that waits for another one's key. -/
def Branch.events (lib : Library) (b : Branch) : Multiset EventKind :=
  match b.phase with
  | .reserved false => {Attachment.key.event lib b.target.key}
  | _ => 0

/-- The event of a key that waits for another one's location. -/
def KeyTask.events (lib : Library) (k : Key) (t : KeyTask) : Multiset EventKind :=
  match t.phase with
  | .reserved l false => {(Attachment.location l).event lib k}
  | _ => 0

/-- The event of a location that is not fetched yet, and those of its branches afterwards. -/
def LocationTask.events (lib : Library) (l : Location) (t : LocationTask) : Multiset EventKind :=
  match t.phase with
  | .expanding _ bs => (bs.map (Branch.events lib)).sum
  | .settled _ => 0
  | _ => {(Attachment.fetch l).event lib t.key}

def Inlining.events (lib : Library) (x : Inlining) : Multiset EventKind :=
  match x.phase with
  | .expanding bs => (bs.map (Branch.events lib)).sum
  | _ => 0

/-- Tasks count for the events that they lead to. -/
def eventWeight (lib : Library) : Weight (Multiset EventKind) where
  key k t := t.events lib k
  location l t := t.events lib l
  inlining x := x.events lib
  branch b := b.events lib
  source := 0
  location_expanding _ _ _ _ _ _ := (zero_add _).symm
  inlining_expanding _ _ := (zero_add _).symm

/-- The events that are not in the log yet. -/
def pendingEvents (lib : Library) (r : Resolution) : Multiset EventKind :=
  total (eventWeight lib) r

theorem KeyPhase.Searching.events {calls : DiskCalls} {k : Key} {t : KeyTask}
    (h : t.phase.Searching lib calls k t.file) : t.events lib k = 0 := by
  obtain ⟨file, n, ancestry, phase⟩ := t
  cases phase with
  | normalizing | locating => rfl
  | reserved | settled => exact h.elim

theorem sum_events_freshBranches (is : List Import) (n : Nat) (ancestry : Ancestry) :
    ((freshBranches is n ancestry).map (Branch.events lib)).sum = 0 := by
  refine List.sum_eq_zero fun x hx => ?_
  obtain ⟨b, hb, rfl⟩ := List.mem_map.mp hx
  obtain ⟨i, -, rfl⟩ := List.mem_map.mp hb
  rfl

theorem sum_events_of_allSettled {bs : List Branch} (h : AllSettled bs) :
    (bs.map (Branch.events lib)).sum = 0 := by
  refine List.sum_eq_zero fun x hx => ?_
  obtain ⟨b, hb, rfl⟩ := List.mem_map.mp hx
  obtain ⟨o, ho⟩ := h b hb
  rw [Branch.events, ho]

/-! ## What the log says about imports -/

theorem world_setBranch (r : Resolution) (owner : Owner) (j : Nat) (phase : BranchPhase) :
    (r.setBranch owner j phase).world = r.world := by
  rcases setBranch_cases r owner j phase with h | ⟨_, _, _, _, _, h⟩ | ⟨_, _, _, _, _, _, _, h⟩ <;>
    rw [h] <;> rfl

/-- Whoever came second is in the log when it is released. -/
theorem imports_release (r : Resolution) (own : Bool) (text : Text) (n : Nat) (k : Key)
    (location : Option Location) :
    (r.release own (.ok text) n k location).world.log.imports = r.world.log.imports ++
      if own then [] else [.importShared k.text (location.map Location.text)] := by
  cases own with
  | true => exact (List.append_nil _).symm
  | false => exact Log.imports_emit ..

/-- A location that has been fetched is in the log. -/
theorem log_of_expanding (h : Coherent lib r) {l : Location} {t u : LocationTask}
    {pause : Pause Outcome} {raw raw' : Text} {bs : List Branch} (hl : r.location? l = some t)
    (hphase : t.phase = .fetching pause) (hfetch : lib.fetch l = .ok raw)
    (hl' : (stepLocation r l).location? l = some u) (hexpanding : u.phase = .expanding raw' bs) :
    (stepLocation r l).world.log =
      r.world.log.emit (.importFetched t.key.text l.text (Text.byteSize raw)) := by
  have hread : r.loader.fetch r.world.disk l.text = lib.fetch l := by
    rw [h.loader, h.same.1, Library.fetch]
  have htells : pause.Tells r.calls (r.loader.fetch r.world.disk l.text) := by
    rw [hread]
    exact h.locations l t pause hl hphase
  have hget : Table.get? r.cache.locations l = some t := hl
  simp only [stepLocation, hget, hphase] at hl' ⊢
  cases hproceed : pause.proceed r fun disk => r.loader.fetch disk l.text with
  | inl pause' =>
    rw [hproceed, location?_setLocation, if_pos rfl] at hl'
    cases hl'
    cases hexpanding
  | inr o =>
    have ho := Pause.proceed_inr htells hproceed
    rw [hread, hfetch] at ho
    subst ho
    simp only [hproceed] at hl' ⊢
    split at hl'
    · rw [location?_setLocation, if_pos rfl] at hl'
      cases hl'
      cases hexpanding
    · rfl

/-! ## Every transition notes the events -/

section Events

theorem pendingEvents_setKey (lib : Library) {k : Key} {t : KeyTask} (hk : r.key? k = some t)
    (phase : KeyPhase) :
    pendingEvents lib (r.setKey k t phase) + t.events lib k =
      pendingEvents lib r + { t with phase }.events lib k :=
  total_setKey (eventWeight lib) hk phase

theorem pendingEvents_setBranch (lib : Library) {owner : Owner} {j : Nat} {b : Branch}
    (hj : (branches r owner)[j]? = some b) (phase : BranchPhase) :
    pendingEvents lib (r.setBranch owner j phase) + b.events lib =
      pendingEvents lib r + { b with phase }.events lib :=
  total_setBranch (eventWeight lib) hj phase

theorem pendingEvents_setInlining_of_eq {i n : Nat} {old phase : InliningPhase}
    (hi : r.inlinings[i]? = some ⟨n, old⟩)
    (hphase : Inlining.events lib ⟨n, old⟩ = Inlining.events lib ⟨n, phase⟩) :
    pendingEvents lib (r.setInlining i phase) = pendingEvents lib r := by
  have hset := total_setInlining (eventWeight lib) hi phase
  exact add_right_cancel (hset.trans (congrArg (_ + ·) hphase.symm))

theorem pendingEvents_setLocation_of_eq {l : Location} {t : LocationTask}
    (hl : r.location? l = some t) {phase : LocationPhase}
    (hphase : t.events lib l = { t with phase }.events lib l) :
    pendingEvents lib (r.setLocation l t phase) = pendingEvents lib r := by
  have hset := total_setLocation (eventWeight lib) hl phase
  exact add_right_cancel (hset.trans (congrArg (_ + ·) hphase.symm))

theorem pendingEvents_release (own : Bool) (o : Outcome) (n : Nat) (k : Key)
    (location : Option Location) :
    pendingEvents lib (r.release own o n k location) = pendingEvents lib r :=
  total_congr _ (cache_release ..) (inlinings_release ..)

/-- The log and the pending events have got the event that the claim leads to. -/
def Balanced (lib : Library) (r r' : Resolution) (claim : Option Claim) : Prop :=
  (r'.world.log.imports : Multiset EventKind) + pendingEvents lib r' =
    r.world.log.imports + pendingEvents lib r +
      (claim.toList.filterMap (Claim.event? lib) : List EventKind)

/-- What is claimed becomes pending, and what the log is told is pending no longer. -/
theorem Balanced.of_noted {claim : Option Claim} {noted : List EventKind}
    (hlog : r'.world.log.imports = r.world.log.imports ++ noted)
    (hpending : pendingEvents lib r' + (noted : Multiset EventKind) = pendingEvents lib r +
      (claim.toList.filterMap (Claim.event? lib) : List EventKind)) : Balanced lib r r' claim := by
  rw [Balanced, hlog, ← Multiset.coe_add, add_assoc, add_comm (noted : Multiset EventKind),
    hpending, add_assoc]

theorem Balanced.of_claimed {claim : Option Claim} (hworld : r'.world = r.world)
    (hpending : pendingEvents lib r' = pendingEvents lib r +
      (claim.toList.filterMap (Claim.event? lib) : List EventKind)) : Balanced lib r r' claim := by
  rw [Balanced, hworld, hpending, add_assoc]

theorem Balanced.of_eq (hworld : r'.world = r.world)
    (hpending : pendingEvents lib r' = pendingEvents lib r) : Balanced lib r r' none :=
  .of_claimed hworld (hpending.trans (add_zero _).symm)

theorem Transition.balanced_branch {owner : Owner} {j : Nat}
    (ht : Transition lib r (.branch owner j) r') (h : Sound lib loads r)
    (hf : ∀ n, Faultless lib loads r n) : Balanced lib r r' (claim? r r' (.branch owner j)) := by
  cases ht with
  | @looped owner j b hj _ hmem =>
    exact absurd hmem ((hf b.load).asked (h.branch hj).1).1
  | @asked owner j b pauses hj hphase hnot hk =>
    have hnew : pendingEvents lib (r.setKey b.target.key (b.keyTask pauses) (.normalizing pauses)) =
        pendingEvents lib r := (total_setKey_of_none (eventWeight lib) hk _ _).trans (add_zero _)
    have hset := pendingEvents_setBranch lib
      (r := r.setKey b.target.key (b.keyTask pauses) (.normalizing pauses)) hj (.reserved true)
    rw [Branch.events, hphase, hnew] at hset
    rw [claim?_branch hj hphase hnot, hk]
    exact .of_claimed (world_setBranch ..) ((add_zero _).symm.trans hset)
  | @joined owner j b t hj hphase hnot hk =>
    have hset := pendingEvents_setBranch lib hj (.reserved false)
    rw [Branch.events, hphase] at hset
    rw [claim?_branch hj hphase hnot, hk]
    exact .of_claimed (world_setBranch ..) ((add_zero _).symm.trans hset)
  | @answered owner j b own o hj hphase ho =>
    obtain ⟨text, rfl⟩ := ((hf b.load).asked (h.branch hj).1).2 o ho
    have hset := pendingEvents_setBranch lib
      (r := r.release own (.ok text) b.load b.target.key none)
      (by rw [branches_release]; exact hj) (.settled (.ok text))
    rw [Branch.events, hphase, pendingEvents_release] at hset
    have hlog := imports_release r own text b.load b.target.key none
    rw [← world_setBranch _ owner j (.settled (.ok text))] at hlog
    rw [claim?_branch_eq_none hj (by simp [hphase])]
    refine .of_noted hlog ?_
    cases own <;> exact hset

theorem Transition.balanced_key {k : Key} (ht : Transition lib r (.key k) r')
    (h : Sound lib loads r) (hf : ∀ n, Faultless lib loads r n) :
    Balanced lib r r' (claim? r r' (.key k)) := by
  cases ht with
  | @searched k t phase calls hk hsearching hsearching' =>
    have hset := pendingEvents_setKey lib (r := { r with calls }) hk phase
    rw [hsearching.events, KeyPhase.Searching.events (t := { t with phase }) hsearching'] at hset
    rw [claim?_searching hsearching']
    exact .of_eq rfl (add_right_cancel hset)
  | @lost k t fault hk _ hfind => exact absurd hfind ((hf t.load).find_ne_error hk)
  | @circled k t l hk _ hfind hmem => exact absurd hmem ((hf t.load).found hk hfind).1
  | @opened k t l hk hsearching _ _ _ hl =>
    have hnew : pendingEvents lib (r.setLocation l (t.locationTask k) .queued) =
        pendingEvents lib r + {(Attachment.fetch l).event lib k} :=
      total_setLocation_of_none (eventWeight lib) hl _ _
    have hset := pendingEvents_setKey lib
      (r := r.setLocation l (t.locationTask k) .queued) hk (.reserved l true)
    rw [hsearching.events, hnew] at hset
    rw [claim?_reserved, hl]
    exact .of_claimed rfl ((add_zero _).symm.trans (hset.trans (add_zero _)))
  | @shared k t l u hk hsearching _ _ _ hl =>
    have hset := pendingEvents_setKey lib hk (.reserved l false)
    rw [hsearching.events] at hset
    rw [claim?_reserved, hl]
    exact .of_claimed rfl ((add_zero _).symm.trans hset)
  | @passed k t l own o hk hphase ho =>
    obtain ⟨-, -, hsound⟩ := h.keys k t hk
    rw [hphase] at hsound
    obtain ⟨text, rfl⟩ := ((hf t.load).found hk hsound.1).2 o ho
    have hset := pendingEvents_setKey lib
      (r := r.release own (.ok text) t.load k (some l)) (by rw [key?_release]; exact hk)
      (.settled (.ok text))
    rw [KeyTask.events, hphase, pendingEvents_release] at hset
    rw [claim?_settled]
    refine .of_noted (imports_release ..) ?_
    cases own <;> exact hset

/-- A source claims nothing, and a location that is fetched is in the log. -/
theorem Transition.balanced_source {owner : Owner} (ht : Transition lib r (.source owner) r')
    (hcoherent : Coherent lib r) (h : Sound lib loads r) (hf : ∀ n, Faultless lib loads r n)
    (hstep : step (.source owner) r = r') : Balanced lib r r' none := by
  cases ht with
  | plain hi | refused hi => exact .of_eq rfl (pendingEvents_setInlining_of_eq hi rfl)
  | staged hi =>
    exact .of_eq rfl (pendingEvents_setInlining_of_eq hi (sum_events_freshBranches ..).symm)
  | inlined hi hbs =>
    exact .of_eq rfl (pendingEvents_setInlining_of_eq hi (sum_events_of_allSettled hbs))
  | requested hl hphase =>
    refine .of_eq rfl (pendingEvents_setLocation_of_eq hl ?_)
    rw [LocationTask.events, hphase, LocationTask.events]
  | awaited hl hphase =>
    refine .of_eq rfl (pendingEvents_setLocation_of_eq hl ?_)
    rw [LocationTask.events, hphase, LocationTask.events]
  | @missing l t _ fault hl _ hfetch =>
    obtain ⟨raw, hfetch'⟩ := (hf t.load).location l t hl rfl
    rw [hfetch] at hfetch'
    cases hfetch'
  | @spoiled l t _ raw _ _ hl _ hfetch himports =>
    obtain ⟨is, himports'⟩ := (hf t.load).location_imports h hl hfetch
    rw [himports] at himports'
    cases himports'
  | @expanded l t pause raw is kind hl hphase hfetch himports =>
    have hset : pendingEvents lib (setLocation (substitute (emit r kind) t.load t.key
        (marked raw is)) l t (.expanding raw (freshBranches is t.load (l.text :: t.ancestry)))) +
          t.events lib l = pendingEvents lib r + 0 := by
      refine (total_setLocation (eventWeight lib)
        (r := substitute (emit r kind) t.load t.key (marked raw is)) hl _).trans ?_
      exact congrArg (pendingEvents lib r + ·) (sum_events_freshBranches ..)
    rw [LocationTask.events, hphase, Attachment.event, Library.byteSize, hfetch] at hset
    have hstep' : stepLocation r l = setLocation (substitute (emit r kind) t.load t.key
        (marked raw is)) l t (.expanding raw (freshBranches is t.load (l.text :: t.ancestry))) :=
      hstep
    have hlog := log_of_expanding hcoherent (u := { t with phase := .expanding raw _ }) hl hphase
      hfetch (by rw [hstep', location?_setLocation, if_pos rfl]) rfl
    rw [hstep'] at hlog
    exact .of_noted ((congrArg Log.imports hlog).trans (Log.imports_emit ..)) hset
  | filled hl hphase hbs =>
    refine .of_eq rfl (pendingEvents_setLocation_of_eq hl ?_)
    rw [LocationTask.events, hphase]
    exact sum_events_of_allSettled hbs

/-- The log gets the events that the claims lead to, or they are pending. -/
theorem Transition.events (ht : Transition lib r task r') (hcoherent : Coherent lib r)
    (h : Sound lib loads r) (hf : ∀ n, Faultless lib loads r' n) (hstep : step task r = r') :
    Balanced lib r r' (claim? r r' task) := by
  have hf' : ∀ n, Faultless lib loads r n := fun n => (hf n).of_later ht.later
  cases task with
  | source owner => exact ht.balanced_source hcoherent h hf' hstep
  | branch owner j => exact ht.balanced_branch h hf'
  | key k => exact ht.balanced_key h hf'
  | disk =>
    cases ht
    exact .of_eq rfl rfl

end Events

end Resolution

end StyleBatch
