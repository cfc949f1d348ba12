import Mathlib.Data.List.Induction
import StyleBatch.Cache
import StyleBatch.Proofs.Table

/-!
# Sharing resolutions

Resolutions are claimed, and polled through handles.  A poll of a resolution that has not settled
runs it, unless it is being run already; while it runs it may claim and poll others, and it ends by
leaving the resolution further on, or settled.  A handle of a resolution that has settled hands out
a copy of the outcome.

What happened is a list of notes, and the notes alone say how far a resolution is: its last run has
left it so, or it is as its first claim has brought it.

* `Cache.reserve_eq`: an entry is started if there is none, and nothing else happens to the cache.
* `Sharing.future`: a resolution by the notes.
* `Sharing.Kept.act`: the cache holds it, whatever is claimed and polled in whatever order.
* `Sharing.shared`: so there is one run of each resolution, and one outcome for all its handles.
-/

namespace StyleBatch

/-! ## Entries of both levels -/

namespace Cache

/-- What an entry is of. -/
inductive Id where
  | key (k : Key)
  | location (l : Location)
deriving DecidableEq

section Entries

variable {ν : Type}

def stored? (cache : Cache ν ν) : Id → Option ν
  | .key key => Table.get? cache.keys key
  | .location location => Table.get? cache.locations location

def reserve (cache : Cache ν ν) : Id → ν → Bool × Cache ν ν
  | .key key, start => cache.reserveKey key start
  | .location location, start => cache.reserveLocation location start

def set (cache : Cache ν ν) : Id → ν → Cache ν ν
  | .key key, value => cache.setKey key value
  | .location location, value => cache.setLocation location value

/-- Entries come last and keep their places. -/
def Grows (cache cache' : Cache ν ν) : Prop :=
  Table.keys cache.keys <+: Table.keys cache'.keys ∧
    Table.keys cache.locations <+: Table.keys cache'.locations

variable (cache : Cache ν ν) (id : Id) (value : ν)

theorem stored?_set (id' : Id) :
    (cache.set id value).stored? id' = if id = id' then some value else cache.stored? id' := by
  cases id <;> cases id' <;> simp [set, stored?, setKey, setLocation, Table.get?_set]

/-- A claim starts an entry if there is none. -/
theorem reserve_eq : cache.reserve id value =
    if (cache.stored? id).isSome then (false, cache) else (true, cache.set id value) := by
  cases id with
  | key key =>
    by_cases h : (Table.get? cache.keys key).isSome = true <;>
      simp [reserve, reserveKey, Table.reserve, Table.has, stored?, set, setKey, h]
  | location location =>
    by_cases h : (Table.get? cache.locations location).isSome = true <;>
      simp [reserve, reserveLocation, Table.reserve, Table.has, stored?, set, setLocation, h]

theorem Grows.refl : Grows cache cache :=
  ⟨List.prefix_rfl, List.prefix_rfl⟩

theorem prefix_keys_set {κ : Type} [DecidableEq κ] (table : Table κ ν) (key : κ) :
    Table.keys table <+: Table.keys (Table.set table key value) := by
  rw [Table.keys_set]
  split
  · exact List.prefix_rfl
  · exact List.prefix_append ..

theorem grows_set : Grows cache (cache.set id value) := by
  cases id with
  | key key => exact ⟨prefix_keys_set value cache.keys key, List.prefix_rfl⟩
  | location location => exact ⟨List.prefix_rfl, prefix_keys_set value cache.locations location⟩

end Entries

end Cache

namespace Sharing

open Cache (Id)

variable {ν : Type} (outcome? : ν → Option Outcome)

/-! ## Claims and polls -/

/-- Somebody who shares a resolution, until the outcome was delivered. -/
structure Handle where
  id : Id
  delivered : Bool := false

/-- A cache, the handles by their numbers, and the polls that run a resolution, the innermost one
first: the handle that is polled, and the resolution. -/
structure Session (ν : Type) where
  cache : Cache ν ν := .empty
  handles : List Handle := []
  running : List (Nat × Id) := []

/-- What can be done next.  What is done while a resolution runs is done by it. -/
inductive Act
  /-- Nothing has been run of what a claim brings. -/
  | claim (id : Id) (start : ν) (fresh : outcome? start = none)
  | poll (handle : Nat)
  /-- The innermost run ends. -/
  | leave (value : ν)
  | peek (id : Id)

inductive Note (ν : Type) where
  | claimed (id : Id) (start : ν) (started : Bool)
  | ran (id : Id) (value : ν)
  | left (id : Id) (value : ν)
  /-- A poll of a handle has ended, with the outcome if it was delivered. -/
  | polled (handle : Nat) (id : Id) (found : Option Outcome)
  | peeked (id : Id) (found : Option Outcome)
deriving DecidableEq

namespace Session

/-- The handle is done with, if the outcome is there. -/
def deliver (s : Session ν) (n : Nat) (found : Option Outcome) : Session ν :=
  { s with handles := s.handles.modify n fun h => { h with delivered := found.isSome } }

/-- A poll of a handle on the resolution. -/
def poll (s : Session ν) (n : Nat) (id : Id) (value : ν) : List (Note ν) × Session ν :=
  match outcome? value with
  | some o => ([.polled n id (some o)], s.deliver n (some o))
  | none =>
    if id ∈ s.running.map Prod.snd then ([.polled n id none], s)
    else ([.ran id value], { s with running := (n, id) :: s.running })

/-- What is done, with its notes. -/
def act (s : Session ν) : Act outcome? → List (Note ν) × Session ν
  | .claim id start _ =>
    let (started, cache) := s.cache.reserve id start
    ([.claimed id start started], { s with cache, handles := s.handles ++ [{ id }] })
  | .poll n =>
    match s.handles[n]? with
    | some ⟨id, false⟩ =>
      match s.cache.stored? id with
      | some value => s.poll outcome? n id value
      | none => ([], s)
    | _ => ([], s)
  | .leave value =>
    match s.running with
    | [] => ([], s)
    | (n, id) :: running =>
      ([.left id value, .polled n id (outcome? value)],
        { s with cache := s.cache.set id value, running }.deliver n (outcome? value))
  | .peek id => ([.peeked id ((s.cache.stored? id).bind outcome?)], s)

end Session

/-- The notes of all acts, and the session after them. -/
def played (acts : List (Act outcome?)) : List (Note ν) × Session ν :=
  acts.foldl (fun run act => (run.1 ++ (run.2.act outcome? act).1, (run.2.act outcome? act).2))
    ([], {})

/-! ## What the notes say -/

/-- What a claim of the resolution brings. -/
def Note.brings (id : Id) : Note ν → Option ν
  | .claimed id' start _ => if id' = id then some start else none
  | _ => none

/-- What a run of the resolution leaves. -/
def Note.leaves (id : Id) : Note ν → Option ν
  | .left id' value => if id' = id then some value else none
  | _ => none

/-- The resolution as its last run has left it, or as its first claim has brought it. -/
def future (id : Id) (notes : List (Note ν)) : Option ν :=
  (notes.filterMap (Note.leaves id)).getLast?.or (notes.filterMap (Note.brings id)).head?

/-- The outcome of the resolution, once it has settled. -/
def outcomeIn (id : Id) (notes : List (Note ν)) : Option Outcome :=
  (future id notes).bind outcome?

/-- A note says what follows from those before it. -/
def Note.Fits (before : List (Note ν)) : Note ν → Prop
  | .claimed id start started => outcome? start = none ∧
      (started = true ↔ ∀ start b, Note.claimed id start b ∉ before)
  | .ran id value => future id before = some value ∧ outcome? value = none
  | .left id _ => ∃ value, Note.ran id value ∈ before ∧ future id before = some value ∧
      outcome? value = none
  | .polled _ id found => found = outcomeIn outcome? id before
  | .peeked id found => found = outcomeIn outcome? id before

/-- Every note follows from those before it, and no resolution that has settled changes. -/
structure Consistent (notes : List (Note ν)) : Prop where
  fits : ∀ before note, before ++ [note] <+: notes → note.Fits outcome? before
  settled : ∀ before middle id, before <+: middle → middle <+: notes →
    (outcomeIn outcome? id before).isSome → future id middle = future id before

/-- The cache holds each resolution as it is by the notes, and the runs that have not ended are of
different resolutions, which have not settled. -/
structure Kept (notes : List (Note ν)) (s : Session ν) : Prop where
  entries : ∀ id, s.cache.stored? id = future id notes
  nodup : (s.running.map Prod.snd).Nodup
  running : ∀ id ∈ s.running.map Prod.snd, ∃ value, Note.ran id value ∈ notes ∧
    future id notes = some value ∧ outcome? value = none
  claimed : ∀ id, (future id notes).isSome → ∃ start b, Note.claimed id start b ∈ notes

/-- What an act does to the cache: no entry goes or is replaced, but a run that ends leaves its own
further on; and a claim at one level, or a peek, is nothing to the other level. -/
structure Frames (s : Session ν) (act : Act outcome?) (s' : Session ν) : Prop where
  grows : s.cache.Grows s'.cache
  entries : ∀ id value, s.cache.stored? id = some value → s'.cache.stored? id = some value ∨
    ∃ value', act = .leave value' ∧ (s.running.map Prod.snd).head? = some id ∧
      outcome? value = none ∧ s'.cache.stored? id = some value'
  levels : match act with
    | .claim (.key _) .. => s'.cache.locations = s.cache.locations
    | .claim (.location _) .. => s'.cache.keys = s.cache.keys
    | .poll _ | .peek _ => s'.cache = s.cache
    | .leave _ => True

/-! ## One note more -/

section

variable {outcome?} {notes : List (Note ν)} {id : Id} {value : ν} {note : Note ν} {s : Session ν}

theorem future_concat_claimed (id' : Id) (start : ν) (started : Bool) :
    future id (notes ++ [.claimed id' start started]) =
      (future id notes).or (if id' = id then some start else none) := by
  by_cases h : id' = id <;>
    simp [future, Note.brings, Note.leaves, List.head?_append, h]

theorem future_concat_left (id' : Id) (value : ν) :
    future id (notes ++ [.left id' value]) = if id' = id then some value else future id notes := by
  by_cases h : id' = id <;> simp [future, Note.brings, Note.leaves, h]

/-- A note of no resolution, or of one that is as it was. -/
def Note.Quiet (note : Note ν) : Prop :=
  ∀ id, note.brings id = none ∧ note.leaves id = none

/-- Only claims and runs that end change what the notes say of a resolution. -/
theorem future_concat_quiet (h : note.Quiet) : future id (notes ++ [note]) = future id notes := by
  simp [future, h id]

theorem isSome_future_of_claimed {start : ν} {b : Bool} (h : Note.claimed id start b ∈ notes) :
    (future id notes).isSome := by
  have hbrought : start ∈ notes.filterMap (Note.brings id) :=
    List.mem_filterMap.mpr ⟨_, h, by simp [Note.brings]⟩
  have hhead : (notes.filterMap (Note.brings id)).head?.isSome := by
    rw [List.isSome_head?]
    simpa using List.ne_nil_of_mem hbrought
  rw [future, Option.isSome_or, hhead, Bool.or_true]

theorem Consistent.nil : Consistent outcome? ([] : List (Note ν)) where
  fits before note h := by simp at h
  settled before middle id h h' _ := by
    rw [List.prefix_nil.mp h'] at h ⊢
    rw [List.prefix_nil.mp h]

theorem Consistent.concat (h : Consistent outcome? notes) (hfits : note.Fits outcome? notes)
    (hsettled : ∀ id, (outcomeIn outcome? id notes).isSome →
      future id (notes ++ [note]) = future id notes) : Consistent outcome? (notes ++ [note]) where
  fits before note' hbegins := by
    rcases List.prefix_concat_iff.mp hbegins with heq | hbegins
    · obtain ⟨rfl, hnote⟩ := List.append_inj' heq rfl
      rwa [List.singleton_inj.mp hnote]
    · exact h.fits before note' hbegins
  settled before middle id hbefore hbegins hsome := by
    rcases List.prefix_concat_iff.mp hbegins with rfl | hbegins
    · rcases List.prefix_concat_iff.mp hbefore with rfl | hbefore
      · rfl
      · have hsame := h.settled before notes id hbefore List.prefix_rfl hsome
        rw [hsettled id (by rwa [outcomeIn, hsame]), hsame]
    · exact h.settled before middle id hbefore hbegins hsome

theorem Consistent.quiet (h : Consistent outcome? notes) (hquiet : note.Quiet)
    (hfits : note.Fits outcome? notes) : Consistent outcome? (notes ++ [note]) :=
  h.concat hfits fun _ _ => future_concat_quiet hquiet

theorem Kept.nil : Kept outcome? [] ({} : Session ν) where
  entries id := by cases id <;> rfl
  nodup := List.nodup_nil
  running := List.forall_mem_nil _
  claimed id h := by cases h

theorem Kept.quiet (h : Kept outcome? notes s) (hquiet : note.Quiet) :
    Kept outcome? (notes ++ [note]) s where
  entries id := by rw [h.entries, future_concat_quiet hquiet]
  nodup := h.nodup
  running id hid := by
    obtain ⟨value, hran, hfuture, hopen⟩ := h.running id hid
    exact ⟨value, List.mem_append_left _ hran, (future_concat_quiet hquiet).trans hfuture, hopen⟩
  claimed id hid := by
    rw [future_concat_quiet hquiet] at hid
    obtain ⟨start, b, hclaimed⟩ := h.claimed id hid
    exact ⟨start, b, List.mem_append_left _ hclaimed⟩

/-! ## One act more -/

theorem Kept.future_of_entry (h : Kept outcome? notes s) (hentry : s.cache.stored? id = some value) :
    future id notes = some value := by
  rw [← h.entries, hentry]

/-- A claim finds what there is, or brings the first. -/
theorem Kept.claim (h : Kept outcome? notes s) (hc : Consistent outcome? notes) {start : ν}
    (hfresh : outcome? start = none) (id : Id) (handles : List Handle) :
    Kept outcome? (notes ++ [.claimed id start (s.cache.reserve id start).1])
        { s with cache := (s.cache.reserve id start).2, handles } ∧
      Consistent outcome? (notes ++ [.claimed id start (s.cache.reserve id start).1]) := by
  have hfuture : ∀ b id', (future id' notes).isSome →
      future id' (notes ++ [.claimed id start b]) = future id' notes := by
    intro b id' hsome
    rw [future_concat_claimed, Option.or_of_isSome hsome]
  constructor
  · refine ⟨fun id' => ?_, h.nodup, fun id' hid => ?_, fun id' hid => ?_⟩
    · rw [future_concat_claimed, Cache.reserve_eq, h.entries]
      cases hold : future id notes with
      | some value =>
        rw [Option.isSome_some, if_pos rfl, h.entries]
        split
        · rename_i heq
          rw [← heq, hold]
          rfl
        · rw [Option.or_none]
      | none =>
        rw [Option.isSome_none, if_neg Bool.false_ne_true, Cache.stored?_set, h.entries]
        split
        · rename_i heq
          rw [← heq, hold]
          rfl
        · rw [Option.or_none]
    · obtain ⟨value, hran, hvalue, hopen⟩ := h.running id' hid
      exact ⟨value, List.mem_append_left _ hran,
        (hfuture _ _ (Option.isSome_of_eq_some hvalue)).trans hvalue, hopen⟩
    · by_cases heq : id = id'
      · subst heq
        exact ⟨start, _, List.mem_append_right _ (List.mem_singleton_self _)⟩
      · rw [future_concat_claimed, if_neg heq, Option.or_none] at hid
        obtain ⟨start', b, hclaimed⟩ := h.claimed id' hid
        exact ⟨start', b, List.mem_append_left _ hclaimed⟩
  · refine hc.concat ⟨hfresh, ?_⟩ fun id' hid => hfuture _ id' ?_
    · rw [Cache.reserve_eq, h.entries]
      cases hold : future id notes with
      | some value =>
        obtain ⟨start', b, hclaimed⟩ := h.claimed id (by rw [hold]; rfl)
        exact iff_of_false Bool.false_ne_true fun hnone => hnone start' b hclaimed
      | none =>
        refine iff_of_true rfl fun start' b hclaimed => ?_
        have hsome := isSome_future_of_claimed hclaimed
        rw [hold] at hsome
        cases hsome
    · rw [outcomeIn] at hid
      exact Option.isSome_of_isSome_bind hid

/-- A poll hands out the outcome, waits for the run that goes on, or begins a run. -/
theorem Kept.poll (h : Kept outcome? notes s) (hc : Consistent outcome? notes) (n : Nat)
    (hentry : s.cache.stored? id = some value) :
    Kept outcome? (notes ++ (s.poll outcome? n id value).1) (s.poll outcome? n id value).2 ∧
      Consistent outcome? (notes ++ (s.poll outcome? n id value).1) := by
  have hfuture := h.future_of_entry hentry
  have hquiet : ∀ found, (Note.polled n id found : Note ν).Quiet := fun _ _ => ⟨rfl, rfl⟩
  rw [Session.poll]
  cases houtcome : outcome? value with
  | some o =>
    refine ⟨?_, hc.quiet (hquiet _) ?_⟩
    · obtain ⟨hentries, hnodup, hrunning, hclaimed⟩ := h.quiet (hquiet (some o))
      exact ⟨hentries, hnodup, hrunning, hclaimed⟩
    · simp only [Note.Fits, outcomeIn, hfuture, Option.bind_some, houtcome]
  | none =>
    dsimp only
    split
    · refine ⟨h.quiet (hquiet _), hc.quiet (hquiet _) ?_⟩
      simp only [Note.Fits, outcomeIn, hfuture, Option.bind_some, houtcome]
    · rename_i hidle
      have hran : (Note.ran id value).Quiet := fun _ => ⟨rfl, rfl⟩
      obtain ⟨hentries, hnodup, hrunning, hclaimed⟩ := h.quiet hran
      refine ⟨⟨hentries, List.nodup_cons.mpr ⟨hidle, hnodup⟩, ?_, hclaimed⟩,
        hc.quiet hran ⟨hfuture, houtcome⟩⟩
      intro id' hid
      rcases List.mem_cons.mp hid with rfl | hid
      · exact ⟨value, by simp, (future_concat_quiet hran).trans hfuture, houtcome⟩
      · exact hrunning id' hid

/-- A run that ends leaves its own resolution. -/
theorem Kept.leave (h : Kept outcome? notes s) (hc : Consistent outcome? notes) {n : Nat}
    {running : List (Nat × Id)} (hs : s.running = (n, id) :: running) (value : ν)
    (handles : List Handle) :
    Kept outcome? (notes ++ [.left id value]) ⟨s.cache.set id value, handles, running⟩ ∧
      Consistent outcome? (notes ++ [.left id value]) := by
  have hnodup := h.nodup
  rw [hs, List.map_cons, List.nodup_cons] at hnodup
  obtain ⟨old, hran, hold, hopen⟩ := h.running id (by simp [hs])
  have hother : ∀ id', id ≠ id' → future id' (notes ++ [.left id value]) = future id' notes :=
    fun id' hne => by rw [future_concat_left, if_neg hne]
  constructor
  · refine ⟨fun id' => ?_, hnodup.2, fun id' hid => ?_, fun id' hid => ?_⟩
    · rw [Cache.stored?_set, future_concat_left, h.entries]
    · have hne : id ≠ id' := by
        rintro rfl
        exact hnodup.1 hid
      obtain ⟨value', hran', hvalue', hopen'⟩ :=
        h.running id' (by rw [hs]; exact List.mem_cons_of_mem _ hid)
      exact ⟨value', List.mem_append_left _ hran', (hother id' hne).trans hvalue', hopen'⟩
    · have hsome : (future id' notes).isSome := by
        by_cases heq : id = id'
        · rw [← heq, hold]
          rfl
        · rwa [hother id' heq] at hid
      obtain ⟨start, b, hclaimed⟩ := h.claimed id' hsome
      exact ⟨start, b, List.mem_append_left _ hclaimed⟩
  · refine hc.concat ⟨old, hran, hold, hopen⟩ fun id' hid => hother id' ?_
    -- what has settled is not run any more
    rintro rfl
    rw [outcomeIn, hold, Option.bind_some, hopen] at hid
    cases hid

/-- One act on. -/
theorem Kept.act (h : Kept outcome? notes s) (hc : Consistent outcome? notes)
    (a : Act outcome?) :
    Kept outcome? (notes ++ (s.act outcome? a).1) (s.act outcome? a).2 ∧
      Consistent outcome? (notes ++ (s.act outcome? a).1) := by
  have hnothing : Kept outcome? (notes ++ []) s ∧ Consistent outcome? (notes ++ []) := by
    rw [List.append_nil]
    exact ⟨h, hc⟩
  cases a with
  | claim id start fresh => exact h.claim hc fresh id _
  | poll n =>
    rw [Session.act]
    split
    · split
      · rename_i hentry
        exact h.poll hc n hentry
      · exact hnothing
    · exact hnothing
  | leave value =>
    rw [Session.act]
    split
    · exact hnothing
    · rename_i n id running hs
      obtain ⟨hkept, hconsistent⟩ := h.leave hc hs value s.handles
      have hquiet : (Note.polled n id (outcome? value) : Note ν).Quiet := fun _ => ⟨rfl, rfl⟩
      have hnotes : notes ++ [.left id value, .polled n id (outcome? value)] =
          notes ++ [.left id value] ++ [.polled n id (outcome? value)] := by simp
      rw [hnotes]
      refine ⟨?_, hconsistent.quiet hquiet ?_⟩
      · obtain ⟨hentries, hnodup, hrunning, hclaimed⟩ := hkept.quiet hquiet
        exact ⟨hentries, hnodup, hrunning, hclaimed⟩
      · simp only [Note.Fits, outcomeIn, future_concat_left, if_pos, Option.bind_some]
  | peek id =>
    have hquiet : ∀ found, (Note.peeked id found : Note ν).Quiet := fun _ _ => ⟨rfl, rfl⟩
    refine ⟨h.quiet (hquiet _), hc.quiet (hquiet _) ?_⟩
    rw [Note.Fits, outcomeIn, h.entries]

/-- What an act does to the cache. -/
theorem Kept.frames (h : Kept outcome? notes s) (a : Act outcome?) :
    Frames outcome? s a (s.act outcome? a).2 := by
  have hnothing : ∀ a, (s.act outcome? a).2.cache = s.cache →
      s.cache.Grows (s.act outcome? a).2.cache ∧ ∀ id value, s.cache.stored? id = some value →
        (s.act outcome? a).2.cache.stored? id = some value := by
    intro a hsame
    rw [hsame]
    exact ⟨.refl _, fun _ _ hentry => hentry⟩
  cases a with
  | claim id start fresh =>
    have hcache : (s.act outcome? (.claim id start fresh)).2.cache = (s.cache.reserve id start).2 :=
      rfl
    refine ⟨?_, fun id' value hentry => .inl ?_, ?_⟩
    · rw [hcache, Cache.reserve_eq]
      split
      · exact .refl _
      · exact s.cache.grows_set id start
    · rw [hcache, Cache.reserve_eq]
      split
      · exact hentry
      · rename_i hnone
        have hne : id ≠ id' := by
          rintro rfl
          exact hnone (by rw [hentry]; rfl)
        rw [Cache.stored?_set, if_neg hne, hentry]
    · cases id <;> rfl
  | poll n =>
    have hsame : (s.act outcome? (.poll n)).2.cache = s.cache := by
      simp only [Session.act, Session.poll]
      repeat' split
      all_goals rfl
    obtain ⟨hgrows, hentries⟩ := hnothing _ hsame
    exact ⟨hgrows, fun id value hentry => .inl (hentries id value hentry), hsame⟩
  | leave value =>
    have hcache : (s.act outcome? (.leave value)).2.cache =
        match s.running with
        | [] => s.cache
        | (_, id) :: _ => s.cache.set id value := by
      simp only [Session.act]
      split <;> rfl
    cases hs : s.running with
    | nil =>
      rw [hs] at hcache
      obtain ⟨hgrows, hentries⟩ := hnothing _ hcache
      exact ⟨hgrows, fun id value hentry => .inl (hentries id value hentry), trivial⟩
    | cons frame running =>
      obtain ⟨n, id⟩ := frame
      rw [hs] at hcache
      dsimp only at hcache
      refine ⟨hcache ▸ s.cache.grows_set id value, fun id' old hentry => ?_, trivial⟩
      rw [hcache, Cache.stored?_set]
      split
      · rename_i heq
        subst heq
        obtain ⟨old', -, hold, hopen⟩ := h.running id (by simp [hs])
        obtain rfl : old' = old := Option.some.inj (hold.symm.trans (h.future_of_entry hentry))
        exact .inr ⟨value, rfl, by rw [hs]; rfl, hopen, rfl⟩
      · exact .inl hentry
  | peek id => exact ⟨.refl _, fun _ _ hentry => .inl hentry, rfl⟩

/-! ## All acts -/

theorem played_concat (acts : List (Act outcome?)) (a : Act outcome?) :
    played outcome? (acts ++ [a]) =
      ((played outcome? acts).1 ++ ((played outcome? acts).2.act outcome? a).1,
        ((played outcome? acts).2.act outcome? a).2) := by
  rw [played, List.foldl_append]
  rfl

theorem kept_played (acts : List (Act outcome?)) :
    Kept outcome? (played outcome? acts).1 (played outcome? acts).2 ∧
      Consistent outcome? (played outcome? acts).1 := by
  induction acts using List.reverseRecOn with
  | nil => exact ⟨.nil, .nil⟩
  | append_singleton acts a ih =>
    rw [played_concat]
    exact ih.1.act ih.2 a

theorem Consistent.of_prefix (h : Consistent outcome? notes) {before : List (Note ν)}
    (hbegins : before <+: notes) : Consistent outcome? before where
  fits before' note hbefore := h.fits before' note (hbefore.trans hbegins)
  settled before' middle id hbefore hmiddle :=
    h.settled before' middle id hbefore (hmiddle.trans hbegins)

/-- An outcome stays. -/
theorem Consistent.outcome_of_prefix (h : Consistent outcome? notes) {before : List (Note ν)}
    {o : Outcome} (hbegins : before <+: notes) (ho : outcomeIn outcome? id before = some o) :
    outcomeIn outcome? id notes = some o := by
  have hsame := h.settled before notes id hbegins List.prefix_rfl (Option.isSome_of_eq_some ho)
  rw [outcomeIn, hsame, ← outcomeIn, ho]

/-- All that is handed out is the outcome. -/
theorem Consistent.outcome_of_polled (h : Consistent outcome? notes) {n : Nat} {o : Outcome}
    (hpolled : Note.polled n id (some o) ∈ notes) : outcomeIn outcome? id notes = some o := by
  obtain ⟨before, after, rfl⟩ := List.append_of_mem hpolled
  have hfound := h.fits before (.polled n id (some o)) ⟨after, by simp⟩
  exact h.outcome_of_prefix (List.prefix_append ..) hfound.symm

/-- Nothing settles but by a run of its own. -/
theorem Consistent.outcome_iff (h : Consistent outcome? notes) {o : Outcome} :
    outcomeIn outcome? id notes = some o ↔
      ∃ value, Note.left id value ∈ notes ∧ outcome? value = some o := by
  constructor
  · intro ho
    obtain ⟨value, hfuture, hvalue⟩ := Option.bind_eq_some_iff.mp ho
    rw [future, Option.or_eq_some_iff] at hfuture
    rcases hfuture with hlast | ⟨-, hfirst⟩
    · obtain ⟨note, hnote, hleaves⟩ := List.mem_filterMap.mp (List.mem_of_getLast? hlast)
      cases note with
      | left id' value' =>
        rw [Note.leaves] at hleaves
        split at hleaves
        · rename_i heq
          cases hleaves
          exact ⟨value, heq ▸ hnote, hvalue⟩
        · cases hleaves
      | _ => cases hleaves
    · -- what a claim brings has not settled
      obtain ⟨note, hnote, hbrings⟩ := List.mem_filterMap.mp (List.mem_of_head? hfirst)
      cases note with
      | claimed id' start b =>
        obtain ⟨before, after, rfl⟩ := List.append_of_mem hnote
        obtain ⟨hfresh, -⟩ := h.fits before (.claimed id' start b) ⟨after, by simp⟩
        rw [Note.brings] at hbrings
        split at hbrings
        · cases hbrings
          rw [hfresh] at hvalue
          cases hvalue
        · cases hbrings
      | _ => cases hbrings
  · rintro ⟨value, hleft, hvalue⟩
    obtain ⟨before, after, rfl⟩ := List.append_of_mem hleft
    have hbegins : before ++ [.left id value] <+: before ++ .left id value :: after :=
      ⟨after, by simp⟩
    refine h.outcome_of_prefix hbegins ?_
    rw [outcomeIn, future_concat_left, if_pos rfl, Option.bind_some, hvalue]

variable (outcome?) in
/-- What is known of claims and polls, whatever their order and however polls nest. -/
structure Shared (notes : List (Note ν)) : Prop where
  /-- Of the claims of a resolution exactly the first is told that it has started it. -/
  started : ∀ before id start b, before ++ [.claimed id start b] <+: notes →
    (b = true ↔ ∀ start' b', Note.claimed id start' b' ∉ before)
  /-- Only what the first claim has brought is run, as its runs have left it, until it settles. -/
  ran : ∀ before id value, before ++ [.ran id value] <+: notes →
    future id before = some value ∧ outcome? value = none
  /-- All handles deliver one outcome. -/
  agree : ∀ n n' id o o', Note.polled n id (some o) ∈ notes → .polled n' id (some o') ∈ notes →
    o = o'
  /-- A handle that is polled, or a look, finds an outcome exactly if a run has ended with it. -/
  found : ∀ before id found, (before ++ [.peeked id found] <+: notes ∨
      ∃ n, before ++ [.polled n id found] <+: notes) →
    ∀ o, found = some o ↔ ∃ value, Note.left id value ∈ before ∧ outcome? value = some o
  /-- And from then on every look finds this one. -/
  stays : ∀ before id value o, before ++ [.left id value] <+: notes → outcome? value = some o →
    ∀ more found, before ++ [.left id value] <+: more → more ++ [.peeked id found] <+: notes →
      found = some o

theorem Consistent.shared (h : Consistent outcome? notes) : Shared outcome? notes where
  started before id start b hbegins := (h.fits before _ hbegins).2
  ran before id value hbegins := h.fits before _ hbegins
  agree n n' id o o' hpolled hpolled' :=
    Option.some.inj ((h.outcome_of_polled hpolled).symm.trans (h.outcome_of_polled hpolled'))
  found before id found hfound o := by
    have hbefore : before <+: notes ∧ found = outcomeIn outcome? id before := by
      rcases hfound with hbegins | ⟨n, hbegins⟩
      · exact ⟨(List.prefix_append ..).trans hbegins, h.fits before _ hbegins⟩
      · exact ⟨(List.prefix_append ..).trans hbegins, h.fits before _ hbegins⟩
    rw [hbefore.2]
    exact (h.of_prefix hbefore.1).outcome_iff
  stays before id value o _ hvalue more found hmore hbegins := by
    have hfound : found = outcomeIn outcome? id more := h.fits more _ hbegins
    rw [hfound]
    refine (h.of_prefix ((List.prefix_append ..).trans hbegins)).outcome_iff.mpr ⟨value, ?_, hvalue⟩
    exact hmore.subset (by simp)

variable (outcome?) in
/-- Whatever is claimed, polled and looked at, in whatever order and however polls nest, everybody
shares one run of each resolution; and each further act keeps to its own entry. -/
theorem shared_played (acts : List (Act outcome?)) :
    Shared outcome? (played outcome? acts).1 ∧
      ∀ act, Frames outcome? (played outcome? acts).2 act
        ((played outcome? acts).2.act outcome? act).2 :=
  ⟨(kept_played acts).2.shared, (kept_played acts).1.frames⟩

/-- While a key is resolved, a location is claimed and polled to its end.  The second claim of the
key brings another text, which nobody gets. -/
example :
    let key : Id := .key ⟨"a/|./_b.scss"⟩
    let location : Id := .location ⟨"a/_b.scss"⟩
    let outcome : Outcome := .ok "b{}"
    (played Countdown.peek? [
      .claim key ⟨0, outcome, false⟩ rfl, .claim key ⟨0, .ok "c{}", false⟩ rfl, .poll 1,
      .claim location ⟨0, outcome, false⟩ rfl, .poll 2, .leave ⟨0, outcome, true⟩, .poll 0,
      .leave ⟨0, outcome, true⟩, .poll 0]).1 =
    [.claimed key ⟨0, outcome, false⟩ true, .claimed key ⟨0, .ok "c{}", false⟩ false,
      .ran key ⟨0, outcome, false⟩, .claimed location ⟨0, outcome, false⟩ true,
      .ran location ⟨0, outcome, false⟩, .left location ⟨0, outcome, true⟩,
      .polled 2 location (some outcome), .polled 0 key none, .left key ⟨0, outcome, true⟩,
      .polled 1 key (some outcome), .polled 0 key (some outcome)] := by
  decide +kernel

end

end Sharing

end StyleBatch
