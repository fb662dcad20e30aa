import TreeFold.Proofs.Flatten.Chunks
import TreeFold.Proofs.Report

/-!
# Every source is counted once

A source that is looked at is written, skipped or a failure, and never two of these. So the counts
of a report add up after any sources, whatever the policy, the failures and the size of the chunks,
and in dry runs as well as in real ones.
-/

namespace TreeFold

namespace Report

/-- Every input is written, skipped or failed, and every written file is an output. -/
structure Balanced (report : Report) : Prop where
  inputs : report.processed = report.written + report.skipped + report.failures.length
  outputs : report.outputs.length = report.written

/-- The report has one input more, with what became of it. -/
inductive Advances (report : Report) : Report → Prop
  | failed (failure : FileFailure) : Advances report (report.recordInput.recordFailure failure)
  | skipped (warning : Text) : Advances report (report.recordInput.recordSkip warning)
  | written (destination : Path) : Advances report (report.recordInput.recordWrite destination)

variable {report next : Report}

theorem balanced_empty : empty.Balanced :=
  ⟨rfl, rfl⟩

theorem Advances.processed (h : report.Advances next) : next.processed = report.processed + 1 := by
  cases h <;> rfl

/-- One input more keeps the balance. -/
theorem Advances.balanced (h : report.Advances next) (hbalanced : report.Balanced) :
    next.Balanced := by
  obtain ⟨hinputs, houtputs⟩ := hbalanced
  cases h with
  | failed failure =>
      refine ⟨?_, houtputs⟩
      simp only [recordFailure, recordInput, List.length_append, List.length_singleton, hinputs]
      omega
  | skipped warning =>
      refine ⟨?_, houtputs⟩
      simp only [recordSkip, recordInput, hinputs]
      omega
  | written destination =>
      constructor
      · simp only [recordWrite, recordInput, hinputs]
        omega
      · simp only [recordWrite, recordInput, List.length_append, List.length_singleton, houtputs]

end Report

namespace Flatten

variable {options : Options} {sources : List Path}

/-- One source is one input more. -/
theorem advances_writeRendered (options : Options) (run : Run) (source : Path)
    (rendered : Except FileFailure Text) :
    run.batch.report.Advances (writeRendered options run source rendered).batch.report := by
  cases rendered with
  | error failure => exact .failed failure
  | ok text =>
      cases hname : source.fileName? with
      | none =>
          simp only [writeRendered, hname]
          exact .failed (.missing source)
      | some name =>
          simp only [writeRendered, hname, NameAllocator.allocate]
          cases hchoose : run.names.choose? run.batch.fs name with
          | none => exact .skipped _
          | some destination =>
              have hwrite := Batch.report_write
                ⟨run.batch.fs, run.batch.report.recordInput⟩ options.dryRun destination text
              simp only
              rcases hwrite with hwrite | ⟨e, hwrite⟩
              · rw [hwrite]
                exact .written destination
              · rw [hwrite]
                exact .failed _

/-- After the sources that are left, all are counted, and the counts add up. -/
def Counts (sources : List Path) (run : Run) (rest : List Path) : Prop :=
  run.batch.report.Balanced ∧ run.batch.report.processed + rest.length = sources.length

theorem Counts.step {run : Run} {source : Path} {rest : List Path}
    (h : Counts sources run (source :: rest)) (rendered : Except FileFailure Text) :
    Counts sources (writeRendered options run source rendered) rest := by
  have hadvances := advances_writeRendered options run source rendered
  refine ⟨hadvances.balanced h.1, ?_⟩
  have hlength := h.2
  rw [List.length_cons] at hlength
  rw [hadvances.processed]
  omega

/-- Flattening counts every source once. -/
theorem counts_inChunks (options : Options) (size : Nat) (fs : FileSystem)
    (sources : List Path) :
    (inChunks options size fs sources).report.Balanced ∧
      (inChunks options size fs sources).report.processed = sources.length := by
  have hstart : Counts sources (begin options fs) sources :=
    ⟨Report.balanced_empty, Nat.zero_add _⟩
  exact chunks_invariant (P := Counts sources)
    (fun _ _ _ h => oneByOne_invariant (fun _ _ _ hrun => hrun.step _) h) (Nat.le_refl _) hstart

/-- Missing sources are counted once each, as failures. -/
theorem counts_withMissing {batch : Batch} (h : batch.report.Balanced) (missing : List Path) :
    (withMissing batch missing).report.Balanced ∧
      (withMissing batch missing).report.processed =
        batch.report.processed + missing.length := by
  induction missing generalizing batch with
  | nil => exact ⟨h, rfl⟩
  | cons path rest ih =>
      let next : Batch := ⟨batch.fs, batch.report.recordInput.recordFailure (.missing path)⟩
      have hadvances : batch.report.Advances next.report := .failed (.missing path)
      obtain ⟨hbalanced, hprocessed⟩ :
          (withMissing next rest).report.Balanced ∧
            (withMissing next rest).report.processed = next.report.processed + rest.length :=
        ih (hadvances.balanced h)
      refine ⟨hbalanced, hprocessed.trans ?_⟩
      rw [hadvances.processed, List.length_cons]
      omega

end Flatten

end TreeFold
