import Mathlib
import StyleBatch.Event.Log
import StyleBatch.Proofs.Json
import StyleBatch.Report

/-!
# Traces are read back

A trace has one line for each event, whatever the texts of the events hold, since no record is
written with a line feed.  Each line gives back its event, if the numbers of the event are in the
range of their fields.  So do the records of compiler reports.

* `Json.fields?_object`: a record has its own fields.
* `EventKind.ofJson?_toJson`, `Event.ofJson?_toJson`, `Report.ofJson?_toJson`: records are read
  back.
* `Log.trace_round_trip`: so are traces, line by line.
-/

namespace StyleBatch

/-! ## Records -/

namespace Json

theorem lookup_of_mem (ms : List (Text × Json)) (h : (ms.map Prod.fst).Nodup) {m : Text × Json}
    (hm : m ∈ ms) : ms.lookup m.1 = some m.2 := by
  induction ms with
  | nil => cases hm
  | cons m' ms ih =>
    rw [List.map_cons, List.nodup_cons] at h
    rcases List.mem_cons.mp hm with rfl | hm
    · rw [List.lookup_cons, beq_self_eq_true]
    · have hne : m.1 ≠ m'.1 := fun heq => h.1 (heq ▸ List.mem_map_of_mem hm)
      rw [List.lookup_cons, beq_eq_false_iff_ne.mpr hne]
      exact ih h.2 hm

/-- A record whose names are different has its own fields, in their order. -/
theorem fields?_object (ms : List (Text × Json)) (h : (ms.map Prod.fst).Nodup) :
    fields? (ms.map Prod.fst) (.object ms) = some (ms.map fun m => some m.2) := by
  rw [fields?, List.map_map]
  exact congrArg some (List.map_congr_left fun m hm => lookup_of_mem ms h hm)

/-- A natural number that a field of 64 bits holds. -/
theorem legible_ofNat {n : Nat} (h : n < 2 ^ 64) : Legible (.int n) := by
  simp only [Legible, fitsInteger, Bool.and_eq_true, decide_eq_true_eq]
  omega

theorem asNat?_ofNat {n : Nat} (h : n < 2 ^ 64) : asNat? 64 (.int n) = some n := by
  have hpow : Nat.pow 2 64 = 2 ^ 64 := rfl
  rw [asNat?, if_pos ⟨by omega, by rw [hpow]; omega⟩]
  rfl

/-- An integer that a status field holds. -/
def FitsStatus (n : Int) : Prop :=
  -2 ^ 31 ≤ n ∧ n < 2 ^ 31

theorem FitsStatus.legible {n : Int} (h : FitsStatus n) : Legible (.int n) := by
  simp only [Legible, fitsInteger, Bool.and_eq_true, decide_eq_true_eq]
  obtain ⟨hlow, hhigh⟩ := h
  omega

theorem FitsStatus.asStatus? {n : Int} (h : FitsStatus n) : asStatus? (.int n) = some n := by
  obtain ⟨hlow, hhigh⟩ := h
  rw [Json.asStatus?, asInt?, if_pos (by omega)]

end Json

open Json

namespace EventKind

/-- The numbers of an event are in the range of their fields. -/
def Fits : EventKind → Prop
  | loadSubmitted _ epoch outstanding => epoch < 2 ^ 64 ∧ outstanding < 2 ^ 64
  | importFetched _ _ bytes => bytes < 2 ^ 64
  | batchClosed epoch members _ sourceLength _ =>
    epoch < 2 ^ 64 ∧ members < 2 ^ 64 ∧ sourceLength < 2 ^ 64
  | firstCompileSkipped epoch => epoch < 2 ^ 64
  | compileSucceeded _ outputLength duration => outputLength < 2 ^ 64 ∧ duration < 2 ^ 64
  | compileFailed _ status _ _ => FitsStatus status
  | artifactWritten _ bytes => bytes < 2 ^ 64
  | _ => True

/-- The names of a kind's fields are different, and none of them is the one of its name. -/
theorem nodup_names (kind : EventKind) :
    (("type" : Text) :: kind.members.map Prod.fst).Nodup := by
  cases kind <;> simp only [members, List.map] <;> decide +kernel

theorem legible_toJson {kind : EventKind} (h : kind.Fits) : Legible kind.toJson := by
  refine ⟨trivial, ?_⟩
  cases kind with
  | importShared key location => cases location <;> exact ⟨trivial, trivial, trivial⟩
  | loadSubmitted => exact ⟨trivial, legible_ofNat h.1, legible_ofNat h.2, trivial⟩
  | importFetched => exact ⟨trivial, trivial, legible_ofNat h, trivial⟩
  | batchClosed =>
    exact ⟨legible_ofNat h.1, legible_ofNat h.2.1, trivial, legible_ofNat h.2.2, trivial, trivial⟩
  | firstCompileSkipped => exact ⟨legible_ofNat h, trivial⟩
  | compileSucceeded => exact ⟨trivial, legible_ofNat h.1, legible_ofNat h.2, trivial⟩
  | compileFailed => exact ⟨trivial, h.legible, trivial, trivial, trivial⟩
  | artifactWritten => exact ⟨trivial, legible_ofNat h, trivial⟩
  | bootstrapDeferred => exact ⟨trivial, trivial⟩
  | loadFailed => exact ⟨trivial, trivial, trivial⟩
  | artifactNotWritten => exact ⟨trivial, trivial, trivial⟩

theorem asCount?_ofNat {n : Nat} (h : n < 2 ^ 64) : asCount? (ofNat n) = some n :=
  asNat?_ofNat h

/-- Under its name a kind is read back from its fields. -/
theorem ofFields?_members {kind : EventKind} (h : kind.Fits) :
    ofFields? kind.name (.object kind.members) = some kind := by
  have hfields := fields?_object kind.members (List.nodup_cons.mp kind.nodup_names).2
  rw [ofFields?]
  cases kind
  -- Only its own name is met, and then the values of its fields are there.
  all_goals
    simp only [EventKind.members, List.map] at hfields
    unfold EventKind.name
    dsimp only
    simp only [String.toList_inj, String.reduceEq, if_true, if_false]
    simp only [EventKind.members, hfields]
  case loadSubmitted => simp [asText?, asCount?_ofNat h.1, asCount?_ofNat h.2]
  case bootstrapDeferred | loadFailed | artifactNotWritten => simp [asText?]
  case importFetched => simp [asText?, asCount?_ofNat h]
  case importShared key location => cases location <;> rfl
  case batchClosed => simp [asText?, asCount?_ofNat h.1, asCount?_ofNat h.2.1, asCount?_ofNat h.2.2]
  case firstCompileSkipped => simp [asCount?_ofNat h]
  case compileSucceeded => simp [asText?, asCount?_ofNat h.1, asCount?_ofNat h.2]
  case compileFailed => simp [asText?, h.asStatus?]
  case artifactWritten => simp [asText?, asCount?_ofNat h]

theorem ofJson?_toJson {kind : EventKind} (h : kind.Fits) : ofJson? kind.toJson = some kind := by
  have hname := lookup_of_mem (("type", .string kind.name) :: kind.members)
    kind.nodup_names List.mem_cons_self
  have hrest : kind.members.filter (fun m => m.1 != ("type" : Text)) = kind.members := by
    refine List.filter_eq_self.mpr fun m hm => bne_iff_ne.mpr fun heq => ?_
    exact (List.nodup_cons.mp kind.nodup_names).1 (heq ▸ List.mem_map_of_mem hm)
  have hown : (("type" : Text) != "type") = false := bne_self_eq_false _
  rw [EventKind.toJson, EventKind.ofJson?, member?, hname,
    List.filter_cons_of_neg (by rw [hown]; decide), hrest]
  exact ofFields?_members h

end EventKind

namespace Event

/-- The numbers of an event are in the range of their fields. -/
def Fits (event : Event) : Prop :=
  event.id < 2 ^ 64 ∧ event.time < 2 ^ 64 ∧ event.kind.Fits

theorem legible_toJson {event : Event} (h : event.Fits) : Legible event.toJson :=
  ⟨legible_ofNat h.1, legible_ofNat h.2.1, EventKind.legible_toJson h.2.2, trivial⟩

theorem ofJson?_toJson {event : Event} (h : event.Fits) : ofJson? event.toJson = some event := by
  obtain ⟨id, time, kind⟩ := event
  obtain ⟨hid, htime, hkind⟩ := h
  have hfields := fields?_object [("id", .int id), ("timestamp_ms", .int time),
    ("kind", kind.toJson)] (by simp only [List.map]; decide +kernel)
  simp only [List.map] at hfields
  rw [toJson, ofJson?, hfields]
  simp [asNat?_ofNat hid, asNat?_ofNat htime, EventKind.ofJson?_toJson hkind]

end Event

namespace Report

/-- The status of a report is in the range of its field. -/
def Fits (report : Report) : Prop :=
  FitsStatus report.status

theorem legible_toJson {report : Report} (h : report.Fits) : Legible report.toJson :=
  ⟨FitsStatus.legible h, trivial, trivial, trivial⟩

theorem ofJson?_toJson {report : Report} (h : report.Fits) :
    ofJson? report.toJson = some report := by
  obtain ⟨status, message, text⟩ := report
  have hstatus : asStatus? (.int status) = some status := FitsStatus.asStatus? h
  have hfields := fields?_object [("status", .int status), ("message", .string message),
    ("text", .string text)] (by simp only [List.map]; decide +kernel)
  simp only [List.map] at hfields
  rw [toJson, ofJson?, hfields]
  simp [asText?, hstatus]

end Report

/-! ## Lines of a trace -/

namespace Log

theorem readLine?_write {event : Event} (h : event.Fits) :
    readLine? event.toJson.write = some event := by
  rw [readLine?, read?_write (Event.legible_toJson h)]
  exact Event.ofJson?_toJson h

theorem splitAtEach_trace {log : Log} (h : ∀ event ∈ log, event.Fits) :
    Text.splitAtEach '\n' log.trace = log.map (fun event => event.toJson.write) ++ [[]] := by
  induction log with
  | nil => rfl
  | cons event log ih =>
    have hline := not_mem_write (Event.legible_toJson (h event List.mem_cons_self))
    have hrest := ih fun event' hmem => h event' (List.mem_cons_of_mem _ hmem)
    rw [trace, List.flatMap_cons, traceLine, List.append_assoc, List.singleton_append,
      Text.splitAtEach_append hline, ← trace, hrest]
    rfl

/-- What is written down is read back.  The trace of a log has the records of its events as its
lines, each ended by a line feed, and each gives back its event; and so does the record of a
compiler report, whatever texts they hold. -/
theorem trace_round_trip {log : Log} {report : Report} (hlog : ∀ event ∈ log, event.Fits)
    (hreport : report.Fits) :
    Text.splitAtEach '\n' log.trace = log.map (fun event => event.toJson.write) ++ [[]] ∧
      (∀ event ∈ log, readLine? event.toJson.write = some event) ∧
      (read? report.toJson.write).bind Report.ofJson? = some report := by
  refine ⟨splitAtEach_trace hlog, fun event hmem => readLine?_write (hlog event hmem), ?_⟩
  rw [read?_write (Report.legible_toJson hreport)]
  exact Report.ofJson?_toJson hreport

/-- Two events whose texts have quotes, line feeds and control characters. -/
def roughLog : Log :=
  [⟨0, 18446744073709551615, .loadFailed "a\n\"b" "\x01é\\"⟩,
    ⟨1, 7, .compileFailed "日" (-2147483648) "\r\n" []⟩]

theorem trace_round_trip_rough : (∀ event ∈ roughLog, event.Fits) ∧
    (Text.splitAtEach '\n' roughLog.trace).length = 3 ∧
    (read? (Report.failure (-1) "\n").toJson.write).bind Report.ofJson? =
      some (Report.failure (-1) "\n") := by
  have hlog : ∀ event ∈ roughLog, event.Fits := by
    intro event hmem
    simp only [roughLog, List.mem_cons, List.not_mem_nil, or_false] at hmem
    rcases hmem with rfl | rfl
    · exact ⟨by decide, by decide, trivial⟩
    · exact ⟨by decide, by decide, by decide, by decide⟩
  have hreport : (Report.failure (-1) "\n").Fits := ⟨by decide, by decide⟩
  obtain ⟨hlines, -, hread⟩ := trace_round_trip hlog hreport
  exact ⟨hlog, by rw [hlines]; rfl, hread⟩

end Log

end StyleBatch
