import TreeFold.Distribute
import TreeFold.Proofs.Report

/-!
# What a distribution does

All blobs are read first. What happens after that is a list of events: each blob is looked at, and
each of its segments is a write at its path below the target, or a failure when it would leave the
target. Dry and real distributions perform the same events.
-/

namespace TreeFold.Distribute

open FileSystem Batch

variable {options : Options} {rules : List AliasRule} {fs : FileSystem} {blobs : List Path}

/-- The writes for the segments of a blob. -/
def segmentWrites (target : Path) (segments : List Segment) : List (Path × Text) :=
  segments.filterMap fun segment =>
    (destination? target segment.path).map fun destination => (destination, segment.content)

/-- The writes for a blob; one that cannot be read has none. -/
def blobWrites (target : Path) : Except FileFailure (List Segment) → List (Path × Text)
  | .ok segments => segmentWrites target segments
  | .error _ => []

/-- The writes for all blobs, as they read before the first write. -/
def plannedWrites (options : Options) (rules : List AliasRule) (fs : FileSystem)
    (blobs : List Path) : List (Path × Text) :=
  blobs.flatMap fun blob => blobWrites options.target (readSegments rules fs blob)

/-- The event for a segment of a blob. -/
def segmentEvent (target blob : Path) (segment : Segment) : Event :=
  match destination? target segment.path with
  | none => .failure (.escaping blob segment.path)
  | some destination => .write destination segment.content

/-- The events for a blob that was read. -/
def blobEvents (target : Path) : Path × Except FileFailure (List Segment) → List Event
  | (_, .error failure) => [.input, .failure failure]
  | (blob, .ok segments) => .input :: segments.map (segmentEvent target blob)

/-- The events for all blobs, as they read before the first write. -/
def plannedEvents (target : Path) (rules : List AliasRule) (fs : FileSystem)
    (blobs : List Path) : List Event :=
  blobs.flatMap fun blob => blobEvents target (blob, readSegments rules fs blob)

theorem writeSegment_eq (options : Options) (blob : Path) (batch : Batch) (segment : Segment) :
    writeSegment options blob batch segment =
      (segmentEvent options.target blob segment).perform options.dryRun batch := by
  rw [writeSegment, segmentEvent]
  cases destination? options.target segment.path <;> rfl

theorem writeBlob_eq (options : Options) (batch : Batch)
    (read : Path × Except FileFailure (List Segment)) :
    writeBlob options batch read =
      batch.performAll options.dryRun (blobEvents options.target read) := by
  obtain ⟨blob, failure | segments⟩ := read
  · rfl
  · have hstep : writeSegment options blob = fun batch segment =>
        (segmentEvent options.target blob segment).perform options.dryRun batch := by
      funext batch segment
      exact writeSegment_eq options blob batch segment
    rw [writeBlob, blobEvents, performAll_cons, performAll, List.foldl_map, hstep]
    rfl

/-- A distribution performs the events of its blobs, as they read before the first write. -/
theorem files_eq (options : Options) (rules : List AliasRule) (fs : FileSystem)
    (blobs : List Path) :
    files options rules fs blobs =
      performAll options.dryRun ⟨fs, .empty⟩ (plannedEvents options.target rules fs blobs) := by
  have hstep : writeBlob options = fun batch read =>
      batch.performAll options.dryRun (blobEvents options.target read) := by
    funext batch read
    exact writeBlob_eq options batch read
  rw [files, plannedEvents, performAll, List.foldl_flatMap, List.foldl_map, hstep]
  rfl

theorem write?_segmentEvent (target blob : Path) (segment : Segment) :
    (segmentEvent target blob segment).write? =
      (destination? target segment.path).map fun destination => (destination, segment.content) := by
  rw [segmentEvent]
  cases destination? target segment.path <;> rfl

theorem filterMap_write?_blobEvents (target blob : Path)
    (read : Except FileFailure (List Segment)) :
    (blobEvents target (blob, read)).filterMap Event.write? = blobWrites target read := by
  cases read with
  | error failure => rfl
  | ok segments =>
      have hinput : Event.write? .input = none := rfl
      rw [blobEvents, blobWrites, segmentWrites, List.filterMap_cons_none hinput,
        List.filterMap_map]
      congr 1
      funext segment
      exact write?_segmentEvent target blob segment

/-- The writes among the events of the blobs. -/
theorem filterMap_write?_plannedEvents (options : Options) (rules : List AliasRule)
    (fs : FileSystem) (blobs : List Path) :
    (plannedEvents options.target rules fs blobs).filterMap Event.write? =
      plannedWrites options rules fs blobs := by
  rw [plannedEvents, plannedWrites, List.filterMap_flatMap]
  congr 1
  funext blob
  exact filterMap_write?_blobEvents options.target blob (readSegments rules fs blob)

section Real

variable (hreal : options.dryRun = false)
include hreal

/-- A real distribution attempts the planned writes in their order. -/
theorem fs_files (rules : List AliasRule) (fs : FileSystem) (blobs : List Path) :
    (files options rules fs blobs).fs = fs.attempt (plannedWrites options rules fs blobs) := by
  rw [files_eq, hreal, fs_performAll, filterMap_write?_plannedEvents]

/-- The outputs of a real distribution are the planned writes that succeed. -/
theorem outputs_files (rules : List AliasRule) (fs : FileSystem) (blobs : List Path) :
    (files options rules fs blobs).report.outputs =
      (fs.succeeding (plannedWrites options rules fs blobs)).map Prod.fst := by
  rw [files_eq, hreal, outputs_performAll, filterMap_write?_plannedEvents]
  rfl

/-- A real distribution has written what succeeds of the planned writes. -/
theorem wrote_succeeding (rules : List AliasRule) (hfs : fs.LinkFree) (blobs : List Path) :
    Wrote fs (fs.succeeding (plannedWrites options rules fs blobs))
      (files options rules fs blobs).fs := by
  rw [fs_files hreal]
  exact (Wrote.nil hfs).attempt _

/-- When no write fails, all planned writes succeed. -/
theorem succeeding_plannedWrites (h : (files options rules fs blobs).report.WritesSucceed) :
    fs.succeeding (plannedWrites options rules fs blobs) =
      plannedWrites options rules fs blobs := by
  rw [files_eq, hreal] at h
  have hall := succeeding_of_writesSucceed h
  rwa [filterMap_write?_plannedEvents] at hall

/-- When no write fails, the segments of all blobs are written in their order. -/
theorem wrote_files (hfs : fs.LinkFree) (h : (files options rules fs blobs).report.WritesSucceed) :
    Wrote fs (plannedWrites options rules fs blobs) (files options rules fs blobs).fs := by
  have hwrote := wrote_succeeding hreal rules hfs blobs
  rwa [succeeding_plannedWrites hreal h] at hwrote

end Real

end TreeFold.Distribute
