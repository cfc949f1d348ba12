import StyleBatch.Proofs.Pipeline.Epochs
import StyleBatch.Proofs.Pipeline.Fate

/-!
# Where a compiled text goes

The member that had its batch compiled is given the text.  A complete member returns it, and it is
the only one of its epoch that returns any text.  A member that has failed returns its fault, so the
text is then in the artifact or nowhere.

* `Run.answer_of_compiled`: the answer of a member whose batch was compiled, and its storings.
* `compiled_text_delivered`: who returns the text, and what becomes of the artifact.
* `compiled_text_dropped`: a run in which nobody returns the text, and it is not written.
-/

namespace StyleBatch

open Notes

/-- The text goes to the artifact once where the environment persists, and the write may fail. -/
def Storing.Once (persists : Bool) (i : Nat) (text : Text) (storings : List Storing) : Prop :=
  if persists then storings = [.written i text] ∨ storings = [.refused i text] else storings = []

/-- A compile that has ended and that the compiler gave a text for. -/
theorem Invocation.Fate.of_gave {i : Nat} {persists : Bool} {source text : Text}
    {result : Option Text} {own : List Note} {stored : List Storing}
    (h : Invocation.Fate i persists source (.settled result) own stored)
    (hgave : Gave i source text own) : result = some text ∧ Storing.Once persists i text stored := by
  have hsame : ∀ {text'}, Gave i source text' own → text' = text := by
    rintro text' ⟨report', rfl, -, rfl⟩
    obtain ⟨report, heq, -, rfl⟩ := hgave
    simp only [List.cons.injEq, Note.answered.injEq, Except.ok.injEq, true_and, and_true] at heq
    rw [heq]
  cases h with
  | failed _ hnot => exact absurd hgave (hnot text)
  | kept hpersists hgave' =>
    rw [hsame hgave', Storing.Once, hpersists]
    exact ⟨rfl, rfl⟩
  | stored hpersists hgave' =>
    rw [hsame hgave', Storing.Once, hpersists]
    exact ⟨rfl, Or.inl rfl⟩
  | refused hpersists hgave' =>
    rw [hsame hgave', Storing.Once, hpersists]
    exact ⟨rfl, Or.inr rfl⟩

namespace Pipeline

variable {setup : Setup} {acts : List Act}

/-- A member whose batch was compiled ends with the text that the compiler gave for it. -/
theorem Run.answer_of_compiled (h : Run setup acts) {i : Nat} {source t : Text} {o : Outcome}
    (hcompiled : Compiled (setup.notes acts) i source t)
    (ho : (setup.after acts).outcome? i = some o) :
    ∃ (d : Departure) (closed : ClosedBatch), o = answerOf d t ∧ closed.source = source ∧
      .left i d.contribution (some closed) ∈ setup.notes acts ∧
      Storing.Once setup.config.environment.persists i t
        (Storing.about i (setup.storings acts)) := by
  obtain ⟨hcalled, report, hanswered, hsuccess, rfl⟩ := hcompiled
  obtain ⟨e, d, text, rest, hown, rfl, hfate⟩ := h.fate_of_outcome ho hcalled rfl nofun
  have hcalled := mem_about.mpr ⟨hcalled, rfl⟩
  have hanswered := mem_about.mpr ⟨hanswered, rfl⟩
  have hmem : ∀ note, note ∈ about i (setup.notes acts) → note ∈ setup.notes acts :=
    fun note hnote => (mem_about.mp hnote).1
  simp only [Note.subject] at hcalled hanswered
  rw [hown] at hcalled hanswered hmem
  generalize Storing.about i (setup.storings acts) = stored at hfate
  generalize hphase : DeparturePhase.settled text = phase at hfate
  cases hfate with
  | queued | compiling => cases hphase
  | left | skipped => simp at hcalled
  | @compiled closed result own _ hcloses hx =>
    cases hphase
    obtain ⟨answer, heq⟩ := hx.answered
    simp only [heq, List.mem_cons, reduceCtorEq, Note.answered.injEq, true_and, false_or,
      List.not_mem_nil, or_false] at hanswered
    obtain ⟨rfl, rfl⟩ := hanswered
    obtain ⟨rfl, honce⟩ := hx.of_gave ⟨report, heq, hsuccess, rfl⟩
    exact ⟨d, closed, rfl, rfl, hmem _ (by simp), honce⟩

/-- One member of the epoch returns the text, and only one. -/
def Returned (notes : List Note) (p : Pipeline) (e : Nat) (t : Text) : Prop :=
  ∃! i, .joined i e ∈ notes ∧ p.outcome? i = some (.ok t)

/-- No member of the epoch returns any text. -/
def Silent (notes : List Note) (p : Pipeline) (e : Nat) : Prop :=
  ∀ i t, .joined i e ∈ notes → p.outcome? i = some (.ok t) → t = []

/-- What becomes of a text that the compiler gave for a batch, once the member that has closed the
batch has finished.  A complete one returns the text, and is the only member of the epoch that does;
one that has failed returns its fault, and then no member returns any text.  In both cases the text
goes to the artifact once if the environment persists, and otherwise does not. -/
theorem compiled_text_delivered (h : Run setup acts) {i : Nat} {c : Contribution}
    {batch : ClosedBatch} {t : Text} (hleft : .left i c (some batch) ∈ setup.notes acts)
    (hcompiled : Compiled (setup.notes acts) i batch.source t) (ht : t ≠ [])
    (hfinished : ((setup.after acts).outcome? i).isSome) :
    (∀ source, c = .source source → (setup.after acts).outcome? i = some (.ok t) ∧
        Returned (setup.notes acts) (setup.after acts) batch.epoch t) ∧
      (∀ fault, c = .failure fault → (setup.after acts).outcome? i = some (.error fault) ∧
        Silent (setup.notes acts) (setup.after acts) batch.epoch) ∧
      Storing.Once setup.config.environment.persists i t
        (Storing.about i (setup.storings acts)) := by
  have hreached := h.reached
  have hledger := hreached.chronicle.ledger
  have horderly := epochs_consistent hreached
  have hjoined : .joined i batch.epoch ∈ setup.notes acts := by
    obtain ⟨before, after, heq⟩ := List.append_of_mem hleft
    obtain ⟨-, e, hjoined, -, hbatch⟩ := hreached.left heq
    rw [(hbatch batch rfl).1, heq]
    exact List.mem_append_left _ hjoined
  obtain ⟨o, ho⟩ := Option.isSome_iff_exists.mp hfinished
  obtain ⟨d, closed, rfl, hsource, hleft', honce⟩ := h.answer_of_compiled hcompiled ho
  have hd : d.contribution = c := (hledger.left_unique hleft' hleft).1
  -- Whoever returns a text has taken the batch along.
  have honly : ∀ j t', .joined j batch.epoch ∈ setup.notes acts →
      (setup.after acts).outcome? j = some (.ok t') → t' ≠ [] → j = i := by
    intro j t' hj hj' hne
    obtain ⟨-, source', batch', hleft'', hepoch, -⟩ := horderly.returned j batch.epoch t' hj hj' hne
    exact (hledger.handed_unique hleft'' hleft hepoch).1
  refine ⟨?_, ?_, honce⟩
  · rintro source rfl
    rw [answerOf, hd] at ho
    exact ⟨ho, i, ⟨hjoined, ho⟩, fun j hj => honly j t hj.1 hj.2 ht⟩
  · rintro fault rfl
    rw [answerOf, hd] at ho
    refine ⟨ho, fun j t' hj hj' => ?_⟩
    by_contra hne
    obtain rfl := honly j t' hj hj' hne
    rw [ho] at hj'
    cases hj'

/-- An authoritative process that compiles to the source itself. -/
def keepingSetup : Setup :=
  { echoSetup [] with config := { environment := .authoritativeProcess, batch := ⟨1, false⟩ } }

/-- Two loads of one batch. -/
def pairedActs : List Act :=
  together keepingSetup [(⟨"s/x", "a", []⟩, 0), (⟨"s/y", "b", []⟩, 0)] 60

/-- The second one returns the text of both, and it is written. -/
theorem compiled_text_delivered_paired :
    (keepingSetup.after pairedActs).outcome? 1 = some (.ok "ab") ∧
      Returned (keepingSetup.notes pairedActs) (keepingSetup.after pairedActs) 1 "ab" ∧
      .written 1 "ab" ∈ keepingSetup.storings pairedActs := by
  have hrun : Polled keepingSetup pairedActs none :=
    polled_of_start (by decide +kernel)
  have hleft : .left 1 (.source "b") (some ⟨1, 2, "ab"⟩) ∈ keepingSetup.notes pairedActs := by
    decide +kernel
  have hcompiled : Compiled (keepingSetup.notes pairedActs) 1 "ab" "ab" :=
    ⟨by decide +kernel, .success "ab", by decide +kernel, rfl, rfl⟩
  obtain ⟨hsource, -, -⟩ := compiled_text_delivered hrun.run hleft hcompiled (by decide)
    (by decide +kernel)
  obtain ⟨ho, hreturned⟩ := hsource "b" rfl
  exact ⟨ho, hreturned, by decide +kernel⟩

/-- Every text that the compiler gave for a batch is returned by one member of the batch, or written
to the artifact. -/
def NothingDropped (setup : Setup) (acts : List Act) : Prop :=
  ∀ i c batch t, .left i c (some batch) ∈ setup.notes acts →
    Compiled (setup.notes acts) i batch.source t → t ≠ [] →
    Returned (setup.notes acts) (setup.after acts) batch.epoch t ∨
      .written i t ∈ setup.storings acts

/-- Two loads of one batch, of which the one that leaves last has failed, in a packaging step. -/
def failedLastActs : List Act :=
  together (echoSetup []) [(⟨"s/x", "a", []⟩, 0), (⟨"s/y", "@import \"b\";", []⟩, 0)] 60

/-- The text of a batch that a failed member has closed may be dropped. -/
theorem compiled_text_dropped : ¬∀ (setup : Setup) (acts : List Act), Polled setup acts none →
    (∀ i < (setup.after acts).jobs.length, ((setup.after acts).outcome? i).isSome) →
    NothingDropped setup acts := by
  intro hall
  have hrun : Polled (echoSetup []) failedLastActs none :=
    polled_of_start (by decide +kernel)
  have hdelivered := hall _ _ hrun (by decide +kernel)
  have hclosing : ⟨1, 1, 2, "a"⟩ ∈ closings ((echoSetup []).notes failedLastActs) := by
    decide +kernel
  obtain ⟨c, hleft, -⟩ := mem_closings.mp hclosing
  have hcompiled : Compiled ((echoSetup []).notes failedLastActs) 1 "a" "a" :=
    ⟨by decide +kernel, .success "a", by decide +kernel, rfl, rfl⟩
  rcases hdelivered 1 c ⟨1, 2, "a"⟩ "a" hleft hcompiled (by decide) with ⟨j, ⟨hj, ho⟩, -⟩ | hwritten
  · have hnobody : ∀ j ∈ joinersOf 1 ((echoSetup []).notes failedLastActs),
        ((echoSetup []).after failedLastActs).outcome? j ≠ some (.ok "a") := by
      decide +kernel
    exact hnobody j (mem_joinersOf.mpr hj) ho
  · exact absurd hwritten (by decide +kernel)

end Pipeline

end StyleBatch
