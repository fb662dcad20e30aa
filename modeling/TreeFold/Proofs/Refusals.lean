import TreeFold.Proofs.Report

/-!
# Batches with refused items

Some items of a batch are refused: they add a failure and do nothing else. What is said about such a
batch is said by comparing it with the batch of the other items alone. Both have the same files and
the same outputs, and the failures of the refused items stand among the others in the order of the
items.
-/

namespace TreeFold

open FileSystem

variable {Item : Type} {refuses : Item → FileFailure → Prop} {items : List Item}
  {all own : List FileFailure}

/-- All failures of the items, and those among them that are not failures of refused items. An item
adds one failure at most, and a refused one adds exactly one. -/
inductive Interleaved (refuses : Item → FileFailure → Prop) :
    List Item → List FileFailure → List FileFailure → Prop
  | nil : Interleaved refuses [] [] []
  | refused {items : List Item} {all own : List FileFailure} {item : Item} {failure : FileFailure}
      (h : Interleaved refuses items all own) (hrefuses : refuses item failure) :
      Interleaved refuses (items ++ [item]) (all ++ [failure]) own
  | fine {items : List Item} {all own : List FileFailure} {item : Item}
      (h : Interleaved refuses items all own) (haccepts : ∀ failure, ¬refuses item failure) :
      Interleaved refuses (items ++ [item]) all own
  | failed {items : List Item} {all own : List FileFailure} {item : Item}
      (h : Interleaved refuses items all own) (haccepts : ∀ failure, ¬refuses item failure)
      (failure : FileFailure) :
      Interleaved refuses (items ++ [item]) (all ++ [failure]) (own ++ [failure])

/-- A property that tells the failures apart picks out those that are not of refused items. -/
theorem Interleaved.filter_eq (h : Interleaved refuses items all own) {p : FileFailure → Bool}
    (hrefuses : ∀ item ∈ items, ∀ failure, refuses item failure → p failure = false)
    (hown : ∀ failure ∈ own, p failure = true) : all.filter p = own := by
  induction h with
  | nil => rfl
  | refused h hitem ih =>
      have hfalse := hrefuses _ (List.mem_append_right _ List.mem_cons_self) _ hitem
      rw [List.filter_append, ih (fun i hi => hrefuses i (List.mem_append_left _ hi)) hown,
        List.filter_cons_of_neg (by simp [hfalse]), List.filter_nil, List.append_nil]
  | fine h haccepts ih => exact ih (fun i hi => hrefuses i (List.mem_append_left _ hi)) hown
  | failed h haccepts failure ih =>
      rw [List.filter_append, ih (fun i hi => hrefuses i (List.mem_append_left _ hi))
          fun f hf => hown f (List.mem_append_left _ hf),
        List.filter_cons_of_pos (hown failure (List.mem_append_right _ List.mem_cons_self)),
        List.filter_nil]

namespace Batch

/-- The first batch is the second one with the refused items in it: these have added their failures
and changed nothing else. -/
structure Absorbs (refuses : Item → FileFailure → Prop) (items : List Item)
    (all own : Batch) : Prop where
  fs : all.fs = own.fs
  written : all.report.written = own.report.written
  skipped : all.report.skipped = own.report.skipped
  outputs : all.report.outputs = own.report.outputs
  failures : Interleaved refuses items all.report.failures own.report.failures

namespace Absorbs

variable {all own : Batch} {item : Item}

theorem start (refuses : Item → FileFailure → Prop) (fs : FileSystem) :
    Absorbs refuses [] ⟨fs, .empty⟩ ⟨fs, .empty⟩ :=
  ⟨rfl, rfl, rfl, rfl, .nil⟩

/-- Inputs are not compared. -/
theorem recordInput (h : Absorbs refuses items all own) :
    Absorbs refuses items { all with report := all.report.recordInput } own :=
  ⟨h.fs, h.written, h.skipped, h.outputs, h.failures⟩

theorem recordInputs (h : Absorbs refuses items all own) :
    Absorbs refuses items { all with report := all.report.recordInput }
      { own with report := own.report.recordInput } :=
  ⟨h.fs, h.written, h.skipped, h.outputs, h.failures⟩

/-- A refused item adds a failure to the first batch. -/
theorem refused (h : Absorbs refuses items all own) {failure : FileFailure}
    (hrefuses : refuses item failure) :
    Absorbs refuses (items ++ [item]) (all.fail failure) own :=
  ⟨h.fs, h.written, h.skipped, h.outputs, h.failures.refused hrefuses⟩

section Accepted

variable (haccepts : ∀ failure, ¬refuses item failure)
include haccepts

theorem fine (h : Absorbs refuses items all own) :
    Absorbs refuses (items ++ [item]) all own :=
  ⟨h.fs, h.written, h.skipped, h.outputs, h.failures.fine haccepts⟩

/-- An item that fails without being refused fails in both batches. -/
theorem fail (h : Absorbs refuses items all own) (failure : FileFailure) :
    Absorbs refuses (items ++ [item]) (all.fail failure) (own.fail failure) :=
  ⟨h.fs, h.written, h.skipped, h.outputs, h.failures.failed haccepts failure⟩

theorem recordSkip (h : Absorbs refuses items all own) (warning : Text) :
    Absorbs refuses (items ++ [item]) { all with report := all.report.recordSkip warning }
      { own with report := own.report.recordSkip warning } :=
  ⟨h.fs, h.written, congrArg (· + 1) h.skipped, h.outputs, h.failures.fine haccepts⟩

/-- A write has the same outcome in both batches. -/
theorem write (h : Absorbs refuses items all own) (dryRun : Bool) (destination : Path)
    (text : Text) :
    Absorbs refuses (items ++ [item]) (all.write dryRun destination text)
      (own.write dryRun destination text) := by
  have hwritten := congrArg (· + 1) h.written
  have houtputs := congrArg (· ++ [destination]) h.outputs
  have hfine := h.failures.fine haccepts
  cases dryRun with
  | true => exact ⟨h.fs, hwritten, h.skipped, houtputs, hfine⟩
  | false =>
      rcases hwrite : own.fs.overwrite destination text with ⟨_ | e, after⟩
      · rw [write_of_none hwrite, write_of_none (h.fs ▸ hwrite)]
        exact ⟨rfl, hwritten, h.skipped, houtputs, hfine⟩
      · rw [write_of_some hwrite, write_of_some (h.fs ▸ hwrite)]
        exact ⟨rfl, h.written, h.skipped, h.outputs, h.failures.failed haccepts _⟩

end Accepted

end Absorbs

/-- The event records a failure whatever the file system holds. -/
def Event.Refuses (event : Event) (failure : FileFailure) : Prop :=
  event.failure? = some failure

/-- The batch after writes alone. -/
def writeAll (dryRun : Bool) (batch : Batch) (writes : List (Path × Text)) : Batch :=
  batch.performAll dryRun (writes.map fun write => .write write.1 write.2)

theorem writeAll_append (dryRun : Bool) (batch : Batch) (front rest : List (Path × Text)) :
    batch.writeAll dryRun (front ++ rest) = (batch.writeAll dryRun front).writeAll dryRun rest := by
  rw [writeAll, List.map_append, performAll_append]
  rfl

/-- Failures that writes alone have are failures of writes. -/
theorem kind_of_mem_writeAll {dryRun : Bool} {fs : FileSystem} {writes : List (Path × Text)}
    {failure : FileFailure}
    (h : failure ∈ (writeAll dryRun ⟨fs, .empty⟩ writes).report.failures) :
    failure.kind = "write" := by
  have hother := failures_performAll (p := fun failure => !decide (failure.kind = "write"))
    (fun _ _ => rfl) dryRun ⟨fs, .empty⟩ (writes.map fun write => .write write.1 write.2)
  have hnone : (writes.map fun write => Event.write write.1 write.2).filterMap Event.failure? =
      [] := by
    rw [List.filterMap_map]
    exact List.filterMap_eq_nil_iff.mpr fun _ _ => rfl
  rw [hnone] at hother
  simpa using List.filter_eq_nil_iff.mp hother failure h

/-- A batch has the files and outputs that its writes alone give. -/
theorem absorbs_performAll (dryRun : Bool) (fs : FileSystem) (events : List Event) :
    Absorbs Event.Refuses events (performAll dryRun ⟨fs, .empty⟩ events)
      (writeAll dryRun ⟨fs, .empty⟩ (events.filterMap Event.write?)) := by
  induction events using List.reverseRecOn with
  | nil => exact .start Event.Refuses fs
  | append_singleton events event ih =>
      rw [performAll_append, List.filterMap_append, writeAll_append]
      cases event with
      | input => exact ih.recordInput.fine (by simp [Event.Refuses, Event.failure?])
      | failure cause => exact ih.refused rfl
      | write destination text =>
          exact ih.write (by simp [Event.Refuses, Event.failure?]) dryRun destination text

end Batch

end TreeFold
