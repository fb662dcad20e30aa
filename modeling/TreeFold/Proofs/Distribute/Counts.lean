import Mathlib.Algebra.GroupWithZero.Nat
import TreeFold.Proofs.Distribute.Run

/-!
# Every segment is counted once

Each blob is an input, and an unreadable one is one failed reading. Each segment of the readable
ones is written, fails to be written, or would leave the target.
-/

namespace TreeFold.Distribute

open FileSystem Batch

variable {options : Options} {rules : List AliasRule} {fs : FileSystem} {blobs : List Path}

/-- The number of segments of a blob; one that cannot be read has none. -/
def segmentCount : Except FileFailure (List Segment) → Nat
  | .ok segments => segments.length
  | .error _ => 0

/-- The failure of a blob that cannot be read. -/
def readFailure? (fs : FileSystem) (blob : Path) : Option FileFailure :=
  match fs.readText blob with
  | .ok _ => none
  | .error e => some (.read blob e)

/-- What the counts of a report say about the blobs. -/
structure Accounts (rules : List AliasRule) (fs : FileSystem) (blobs : List Path)
    (report : Report) : Prop where
  processed : report.processed = blobs.length
  outputs : report.outputs.length = report.written
  segments : report.written + report.failures.countP (·.kind = "unsafe-destination") +
      report.failures.countP (·.kind = "write") =
    (blobs.map fun blob => segmentCount (readSegments rules fs blob)).sum
  reads : report.failures.filter (·.kind = "read") = blobs.filterMap (readFailure? fs)

section Events

variable (target blob : Path)

theorem segmentEvent_cases (segment : Segment) :
    segmentEvent target blob segment = .failure (.escaping blob segment.path) ∨
      ∃ destination, segmentEvent target blob segment = .write destination segment.content := by
  rw [segmentEvent]
  cases destination? target segment.path with
  | none => exact Or.inl rfl
  | some destination => exact Or.inr ⟨destination, rfl⟩

theorem countP_isInput_segmentEvents (segments : List Segment) :
    (segments.map (segmentEvent target blob)).countP Event.isInput = 0 := by
  rw [List.countP_eq_zero]
  intro event hevent
  obtain ⟨segment, -, rfl⟩ := List.mem_map.mp hevent
  rcases segmentEvent_cases target blob segment with h | ⟨destination, h⟩ <;>
    simp [h, Event.isInput]

/-- The failures recorded for segments are those that would leave the target. -/
theorem kind_of_mem_segmentEvents {segments : List Segment} {failure : FileFailure}
    (h : failure ∈ (segments.map (segmentEvent target blob)).filterMap Event.failure?) :
    failure.kind = "unsafe-destination" := by
  obtain ⟨event, hevent, hfailure⟩ := List.mem_filterMap.mp h
  obtain ⟨segment, -, rfl⟩ := List.mem_map.mp hevent
  rcases segmentEvent_cases target blob segment with heq | ⟨destination, heq⟩
  · rw [heq] at hfailure
    rw [← Option.some.inj hfailure]
    rfl
  · rw [heq] at hfailure
    cases hfailure

/-- A segment is a write or a failure. -/
theorem length_segmentEvents (segments : List Segment) :
    ((segments.map (segmentEvent target blob)).filterMap Event.failure?).length +
        ((segments.map (segmentEvent target blob)).filterMap Event.write?).length =
      segments.length := by
  induction segments with
  | nil => rfl
  | cons segment segments ih =>
      rw [List.map_cons, List.filterMap_cons, List.filterMap_cons, List.length_cons, ← ih]
      rcases segmentEvent_cases target blob segment with h | ⟨destination, h⟩
      · simp only [h, Event.failure?, Event.write?, List.length_cons]
        omega
      · simp only [h, Event.failure?, Event.write?, List.length_cons]
        omega

end Events

section Planned

variable (target : Path) (rules : List AliasRule) (fs : FileSystem) (blobs : List Path)

theorem plannedEvents_cons (blob : Path) :
    plannedEvents target rules fs (blob :: blobs) =
      blobEvents target (blob, readSegments rules fs blob) ++ plannedEvents target rules fs blobs :=
  rfl

theorem readSegments_cases (blob : Path) :
    (∃ e, readSegments rules fs blob = .error (.read blob e) ∧
        readFailure? fs blob = some (.read blob e)) ∨
      ∃ segments, readSegments rules fs blob = .ok segments ∧ readFailure? fs blob = none := by
  rw [readSegments, readFailure?]
  cases fs.readText blob with
  | error e => exact Or.inl ⟨e, rfl, rfl⟩
  | ok text => exact Or.inr ⟨_, rfl, rfl⟩

theorem countP_isInput_plannedEvents :
    (plannedEvents target rules fs blobs).countP Event.isInput = blobs.length := by
  induction blobs with
  | nil => rfl
  | cons blob blobs ih =>
      rw [plannedEvents_cons, List.countP_append, ih, List.length_cons]
      rcases readSegments_cases rules fs blob with ⟨e, hread, -⟩ | ⟨segments, hread, -⟩
      · rw [hread]
        exact Nat.add_comm 1 _
      · rw [hread, blobEvents, List.countP_cons, countP_isInput_segmentEvents]
        exact Nat.add_comm 1 _

/-- The failed readings recorded are those of the blobs that cannot be read. -/
theorem reads_plannedEvents :
    ((plannedEvents target rules fs blobs).filterMap Event.failure?).filter (·.kind = "read") =
      blobs.filterMap (readFailure? fs) := by
  induction blobs with
  | nil => rfl
  | cons blob blobs ih =>
      rw [plannedEvents_cons, List.filterMap_append, List.filter_append, ih]
      rcases readSegments_cases rules fs blob with
        ⟨e, hread, hfailure⟩ | ⟨segments, hread, hfailure⟩
      · rw [hread, List.filterMap_cons_some hfailure]
        rfl
      · have hinput : Event.failure? .input = none := rfl
        have hnone : ((segments.map (segmentEvent target blob)).filterMap Event.failure?).filter
            (·.kind = "read") = [] := by
          apply List.filter_eq_nil_iff.mpr
          intro failure hmem
          rw [kind_of_mem_segmentEvents target blob hmem]
          decide
        rw [hread, List.filterMap_cons_none hfailure, blobEvents, List.filterMap_cons_none hinput,
          hnone, List.nil_append]

/-- The segments of the readable blobs are the planned writes and the failures recorded for what
would leave the target. -/
theorem segments_plannedEvents :
    ((plannedEvents target rules fs blobs).filterMap Event.write?).length +
        ((plannedEvents target rules fs blobs).filterMap Event.failure?).countP
          (·.kind = "unsafe-destination") =
      (blobs.map fun blob => segmentCount (readSegments rules fs blob)).sum := by
  induction blobs with
  | nil => rfl
  | cons blob blobs ih =>
      rw [plannedEvents_cons, List.filterMap_append, List.filterMap_append, List.length_append,
        List.countP_append, List.map_cons, List.sum_cons, ← ih]
      rcases readSegments_cases rules fs blob with ⟨e, hread, -⟩ | ⟨segments, hread, -⟩
      · have hwrites : (blobEvents target (blob, .error (.read blob e))).filterMap Event.write? =
            [] := rfl
        have hunsafe : ((blobEvents target (blob, .error (.read blob e))).filterMap
            Event.failure?).countP (·.kind = "unsafe-destination") = 0 := rfl
        rw [hread, hwrites, hunsafe, List.length_nil, segmentCount]
        omega
      · have hinput : Event.failure? .input = none := rfl
        have hlook : Event.write? .input = none := rfl
        have hall : ((segments.map (segmentEvent target blob)).filterMap Event.failure?).countP
            (·.kind = "unsafe-destination") =
              ((segments.map (segmentEvent target blob)).filterMap Event.failure?).length := by
          apply List.countP_eq_length.mpr
          intro failure hmem
          rw [kind_of_mem_segmentEvents target blob hmem]
          decide
        have hlength := length_segmentEvents target blob segments
        rw [hread, blobEvents, List.filterMap_cons_none hinput, List.filterMap_cons_none hlook,
          hall, segmentCount]
        omega

/-- No failed write is recorded before the writes are attempted. -/
theorem writes_plannedEvents :
    ((plannedEvents target rules fs blobs).filterMap Event.failure?).countP (·.kind = "write") =
      0 := by
  apply List.countP_eq_zero.mpr
  intro failure hmem
  rw [plannedEvents, List.filterMap_flatMap] at hmem
  obtain ⟨blob, -, hfailure⟩ := List.mem_flatMap.mp hmem
  rcases readSegments_cases rules fs blob with ⟨e, hread, -⟩ | ⟨segments, hread, -⟩
  · rw [hread] at hfailure
    rw [List.mem_singleton.mp hfailure]
    simp [FileFailure.kind]
  · have hinput : Event.failure? .input = none := rfl
    rw [hread, blobEvents, List.filterMap_cons_none hinput] at hfailure
    rw [kind_of_mem_segmentEvents target blob hfailure]
    decide

end Planned

/-- A distribution counts every blob and every segment once. -/
theorem accounts_files (options : Options) (rules : List AliasRule) (fs : FileSystem)
    (blobs : List Path) : Accounts rules fs blobs (files options rules fs blobs).report := by
  have hkinds : ∀ kind, kind ≠ "write" → ∀ path e,
      decide (FileFailure.kind (.write path e) = kind) = false := by
    intro kind hkind path e
    exact decide_eq_false (Ne.symm hkind)
  have hfailures : ∀ kind, kind ≠ "write" →
      (files options rules fs blobs).report.failures.filter (·.kind = kind) =
        ((plannedEvents options.target rules fs blobs).filterMap Event.failure?).filter
          (·.kind = kind) := by
    intro kind hkind
    rw [files_eq, failures_performAll (hkinds kind hkind)]
    rfl
  constructor
  · rw [files_eq, processed_performAll, countP_isInput_plannedEvents]
    exact Nat.zero_add _
  · rw [files_eq]
    exact length_outputs_performAll _ _ rfl
  · have hunsafe := congrArg List.length (hfailures "unsafe-destination" (by decide))
    have hwritten := written_performAll options.dryRun ⟨fs, .empty⟩
      (plannedEvents options.target rules fs blobs)
    have hsegments := segments_plannedEvents options.target rules fs blobs
    rw [← List.countP_eq_length_filter, ← List.countP_eq_length_filter] at hunsafe
    rw [writes_plannedEvents, ← files_eq] at hwritten
    rw [← hsegments, hunsafe]
    simp only [Report.empty, List.countP_nil, Nat.zero_add, Nat.add_zero] at hwritten
    omega
  · rw [hfailures "read" (by decide), reads_plannedEvents]

end TreeFold.Distribute
