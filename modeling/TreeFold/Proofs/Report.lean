import TreeFold.Proofs.FileSystem.Writes
import TreeFold.Report

/-!
# Batches as lists of events

What happens to a batch is an input looked at, a failure, or a write. A real batch attempts its
writes in their order and lists those that succeed. A dry one writes nothing, and its report is
that of a real one in which no write fails.

Failures are only ever added to a report. When no write has failed in the end, none has failed on
the way, and every write was made.
-/

namespace TreeFold

open FileSystem

@[simp]
theorem Report.failures_recordFailure (report : Report) (failure : FileFailure) :
    (report.recordFailure failure).failures = report.failures ++ [failure] := rfl

/-- No write has failed. -/
def Report.WritesSucceed (report : Report) : Prop :=
  ∀ path e, FileFailure.write path e ∉ report.failures

/-- Failures of other kinds do not count as failed writes. -/
theorem Report.writesSucceed_of_failures {report : Report} {failures : List FileFailure}
    (h : report.failures = failures) (hkind : ∀ failure ∈ failures, failure.kind ≠ "write") :
    report.WritesSucceed := by
  intro path e hmem
  rw [h] at hmem
  exact hkind _ hmem rfl

/-- A failure more hides no failed write. -/
theorem Report.writesSucceed_of_recordFailure {report : Report} {failure : FileFailure}
    (h : (report.recordFailure failure).WritesSucceed) : report.WritesSucceed := by
  intro path e hmem
  exact h path e (List.mem_append_left _ hmem)

namespace Batch

/-- The dry batch leaves the file system as it was, and it reports what the real one does when no
write fails. -/
structure Predicts (fs : FileSystem) (dry real : Batch) : Prop where
  unchanged : dry.fs = fs
  report : real.report.WritesSucceed → dry.report = real.report

/-- Something that happens to a batch. -/
inductive Event where
  | input
  | failure (failure : FileFailure)
  | write (destination : Path) (text : Text)

namespace Event

/-- The batch after an event. -/
def perform (dryRun : Bool) (batch : Batch) : Event → Batch
  | input => { batch with report := batch.report.recordInput }
  | failure cause => batch.fail cause
  | write destination text => batch.write dryRun destination text

/-- The write that an event asks for. -/
def write? : Event → Option (Path × Text)
  | write destination text => some (destination, text)
  | _ => none

/-- Whether the event is an input. -/
def isInput : Event → Bool
  | input => true
  | _ => false

/-- The failure that an event records whatever the file system holds. -/
def failure? : Event → Option FileFailure
  | failure cause => some cause
  | _ => none

end Event

/-- The batch after events in their order. -/
def performAll (dryRun : Bool) (batch : Batch) (events : List Event) : Batch :=
  events.foldl (Event.perform dryRun) batch

variable {fs : FileSystem} {batch : Batch} {writes : List (Path × Text)} {destination : Path}
  {text : Text} {event : Event} {events : List Event}

@[simp]
theorem performAll_nil (dryRun : Bool) (batch : Batch) : batch.performAll dryRun [] = batch := rfl

theorem performAll_cons (dryRun : Bool) (batch : Batch) (event : Event) (events : List Event) :
    batch.performAll dryRun (event :: events) =
      (event.perform dryRun batch).performAll dryRun events := rfl

theorem performAll_append (dryRun : Bool) (batch : Batch) (front rest : List Event) :
    batch.performAll dryRun (front ++ rest) =
      (batch.performAll dryRun front).performAll dryRun rest :=
  List.foldl_append

theorem write_of_none {after : FileSystem}
    (h : batch.fs.overwrite destination text = ⟨none, after⟩) :
    batch.write false destination text = ⟨after, batch.report.recordWrite destination⟩ := by
  simp [write, h]

theorem write_of_some {after : FileSystem} {e : Error}
    (h : batch.fs.overwrite destination text = ⟨some e, after⟩) :
    batch.write false destination text =
      ⟨after, batch.report.recordFailure (.write destination e)⟩ := by
  simp [write, h]

/-- A write is recorded as made or as failed. -/
theorem report_write (batch : Batch) (dryRun : Bool) (destination : Path) (text : Text) :
    (batch.write dryRun destination text).report = batch.report.recordWrite destination ∨
      ∃ e, (batch.write dryRun destination text).report =
        batch.report.recordFailure (.write destination e) := by
  cases dryRun with
  | true => exact Or.inl rfl
  | false =>
      rcases hwrite : batch.fs.overwrite destination text with ⟨_ | e, after⟩
      · rw [write_of_none hwrite]
        exact Or.inl rfl
      · rw [write_of_some hwrite]
        exact Or.inr ⟨e, rfl⟩

theorem writesSucceed_of_perform {dryRun : Bool}
    (h : (event.perform dryRun batch).report.WritesSucceed) : batch.report.WritesSucceed := by
  cases event with
  | input => exact h
  | failure cause => exact Report.writesSucceed_of_recordFailure h
  | write destination text =>
      rw [Event.perform, write] at h
      split at h
      · exact h
      · split at h
        · exact h
        · exact Report.writesSucceed_of_recordFailure h

theorem writesSucceed_of_performAll {dryRun : Bool}
    (h : (batch.performAll dryRun events).report.WritesSucceed) :
    batch.report.WritesSucceed := by
  induction events generalizing batch with
  | nil => exact h
  | cons event events ih => exact writesSucceed_of_perform (ih h)

/-- A dry batch changes no file. -/
theorem fs_performAll_dry (batch : Batch) (events : List Event) :
    (batch.performAll true events).fs = batch.fs := by
  induction events generalizing batch with
  | nil => rfl
  | cons event events ih =>
      rw [performAll_cons, ih]
      cases event <;> rfl

/-- A real batch attempts its writes in their order. -/
theorem fs_performAll (batch : Batch) (events : List Event) :
    (batch.performAll false events).fs = batch.fs.attempt (events.filterMap Event.write?) := by
  induction events generalizing batch with
  | nil => rfl
  | cons event events ih =>
      rw [performAll_cons, ih]
      cases event with
      | input => rfl
      | failure cause => rfl
      | write destination text =>
          have hsome : Event.write? (.write destination text) = some (destination, text) := rfl
          rw [List.filterMap_cons_some hsome, attempt_cons, Event.perform]
          rcases hwrite : batch.fs.overwrite destination text with ⟨_ | e, after⟩
          · rw [write_of_none hwrite]
          · rw [write_of_some hwrite]

/-- The outputs of a real batch are the writes that succeed. -/
theorem outputs_performAll (batch : Batch) (events : List Event) :
    (batch.performAll false events).report.outputs = batch.report.outputs ++
      (batch.fs.succeeding (events.filterMap Event.write?)).map Prod.fst := by
  induction events generalizing batch with
  | nil => simp
  | cons event events ih =>
      rw [performAll_cons, ih]
      cases event with
      | input => rfl
      | failure cause => rfl
      | write destination text =>
          have hsome : Event.write? (.write destination text) = some (destination, text) := rfl
          rw [List.filterMap_cons_some hsome, Event.perform]
          rcases hwrite : batch.fs.overwrite destination text with ⟨_ | e, after⟩
          · rw [write_of_none hwrite, succeeding_cons_of_none hwrite, List.map_cons,
              List.append_cons]
            rfl
          · rw [write_of_some hwrite, succeeding_cons_of_some hwrite]
            rfl

/-- When no write is reported as failed, all of them succeed. -/
theorem succeeding_of_writesSucceed
    (h : (batch.performAll false events).report.WritesSucceed) :
    batch.fs.succeeding (events.filterMap Event.write?) = events.filterMap Event.write? := by
  induction events generalizing batch with
  | nil => rfl
  | cons event events ih =>
      rw [performAll_cons] at h
      have hrest := ih h
      cases event with
      | input => exact hrest
      | failure cause => exact hrest
      | write destination text =>
          have hsome : Event.write? (.write destination text) = some (destination, text) := rfl
          rw [List.filterMap_cons_some hsome]
          rw [Event.perform] at h hrest
          rcases hwrite : batch.fs.overwrite destination text with ⟨_ | e, after⟩
          · rw [write_of_none hwrite] at hrest
            rw [succeeding_cons_of_none hwrite, hrest]
          · rw [write_of_some hwrite] at h
            exact absurd (List.mem_append_right _ List.mem_cons_self)
              (writesSucceed_of_performAll h destination e)

/-- A dry batch reports what a real one does when no write fails. -/
theorem report_performAll_dry {dry : Batch} (hreport : dry.report = batch.report)
    (h : (batch.performAll false events).report.WritesSucceed) :
    (dry.performAll true events).report = (batch.performAll false events).report := by
  induction events generalizing batch dry with
  | nil => exact hreport
  | cons event events ih =>
      rw [performAll_cons] at h ⊢
      apply ih _ h
      have hnext := writesSucceed_of_performAll h
      cases event with
      | input => simp only [Event.perform, hreport]
      | failure cause => simp only [Event.perform, fail, hreport]
      | write destination text =>
          rcases hwrite : batch.fs.overwrite destination text with ⟨_ | e, after⟩
          · have hreal : Event.perform false batch (.write destination text) =
                ⟨after, batch.report.recordWrite destination⟩ := write_of_none hwrite
            rw [hreal]
            simp only [Event.perform, write, if_true, hreport]
          · rw [Event.perform, write_of_some hwrite] at hnext
            exact absurd (List.mem_append_right _ List.mem_cons_self) (hnext destination e)

/-- The failures of a kind that no failed write has are those that the events record. -/
theorem failures_performAll {p : FileFailure → Bool} (hp : ∀ path e, p (.write path e) = false)
    (dryRun : Bool) (batch : Batch) (events : List Event) :
    (batch.performAll dryRun events).report.failures.filter p =
      batch.report.failures.filter p ++ (events.filterMap Event.failure?).filter p := by
  induction events generalizing batch with
  | nil => simp
  | cons event events ih =>
      rw [performAll_cons, ih]
      cases event with
      | input => rfl
      | failure cause =>
          have hsome : Event.failure? (.failure cause) = some cause := rfl
          rw [List.filterMap_cons_some hsome, Event.perform, fail, Report.failures_recordFailure,
            List.filter_append, List.append_assoc, ← List.filter_append, List.singleton_append]
      | write destination text =>
          have hnone : Event.failure? (.write destination text) = none := rfl
          rw [List.filterMap_cons_none hnone, Event.perform, write]
          split
          · rfl
          · split
            · rfl
            · simp [hp]

section Counts

variable (dryRun : Bool) (batch : Batch) (events : List Event)

/-- Every input is counted once. -/
theorem processed_performAll :
    (batch.performAll dryRun events).report.processed =
      batch.report.processed + events.countP Event.isInput := by
  induction events generalizing batch with
  | nil => rfl
  | cons event events ih =>
      rw [performAll_cons, ih, List.countP_cons]
      cases event with
      | input =>
          simp only [Event.perform, Report.recordInput, Event.isInput, if_true]
          omega
      | failure cause => rfl
      | write destination text =>
          rcases report_write batch dryRun destination text with hwrite | ⟨e, hwrite⟩
          · rw [Event.perform, hwrite]
            rfl
          · rw [Event.perform, hwrite]
            rfl

/-- Every write is made or fails. -/
theorem written_performAll :
    (batch.performAll dryRun events).report.written +
        (batch.performAll dryRun events).report.failures.countP (·.kind = "write") =
      batch.report.written + batch.report.failures.countP (·.kind = "write") +
        (events.filterMap Event.write?).length +
        (events.filterMap Event.failure?).countP (·.kind = "write") := by
  induction events generalizing batch with
  | nil => simp
  | cons event events ih =>
      rw [performAll_cons, ih]
      cases event with
      | input => rfl
      | failure cause =>
          have hsome : Event.failure? (.failure cause) = some cause := rfl
          have hnone : Event.write? (.failure cause) = none := rfl
          rw [List.filterMap_cons_some hsome, List.filterMap_cons_none hnone, List.countP_cons,
            Event.perform, fail, Report.failures_recordFailure, List.countP_append,
            List.countP_singleton]
          simp only [Report.recordFailure]
          omega
      | write destination text =>
          have hnone : Event.failure? (.write destination text) = none := rfl
          have hsome : Event.write? (.write destination text) = some (destination, text) := rfl
          rw [List.filterMap_cons_some hsome, List.filterMap_cons_none hnone, List.length_cons]
          rcases report_write batch dryRun destination text with hwrite | ⟨e, hwrite⟩
          · rw [Event.perform, hwrite]
            simp only [Report.recordWrite]
            omega
          · have hkind : FileFailure.kind (.write destination e) = "write" := rfl
            rw [Event.perform, hwrite, Report.failures_recordFailure, List.countP_append,
              List.countP_singleton, hkind]
            simp only [Report.recordFailure, decide_true, if_true]
            omega

variable {batch} in
/-- The outputs are as many as the writes that are counted. -/
theorem length_outputs_performAll (h : batch.report.outputs.length = batch.report.written) :
    (batch.performAll dryRun events).report.outputs.length =
      (batch.performAll dryRun events).report.written := by
  induction events generalizing batch with
  | nil => exact h
  | cons event events ih =>
      rw [performAll_cons]
      apply ih
      cases event with
      | input => exact h
      | failure cause => exact h
      | write destination text =>
          rcases report_write batch dryRun destination text with hwrite | ⟨e, hwrite⟩
          · rw [Event.perform, hwrite]
            simp only [Report.recordWrite, List.length_append, List.length_singleton, h]
          · rw [Event.perform, hwrite]
            exact h

end Counts

end Batch

end TreeFold
