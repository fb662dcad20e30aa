import Mathlib.Data.List.Infix
import TreeFold.Proofs.Distribute.Containment
import TreeFold.Proofs.Distribute.Counts
import TreeFold.Proofs.Flatten.Unreadable

/-!
# Failures stay with the files that fail

What cannot be read, and what would leave the target, is a failure and nothing else. A distribution
writes the same files as one that is given only the blobs that can be read and writes only their
segments with a destination. A flattening does so too, as long as no source reads otherwise for the
place that it has among the others.
-/

namespace TreeFold

open FileSystem Batch

namespace Distribute

variable {options : Options} {rules : List AliasRule} {fs : FileSystem} {blobs : List Path}

/-- The blobs that can be read. -/
def readableOf (fs : FileSystem) (blobs : List Path) : List Path :=
  blobs.filter fun blob => (readFailure? fs blob).isNone

/-- The failures of a blob that no write has: that it cannot be read, or each of its segments that
would leave the target. -/
def refusals (target : Path) (rules : List AliasRule) (fs : FileSystem) (blob : Path) :
    List FileFailure :=
  match fs.readText blob with
  | .error e => [.read blob e]
  | .ok text =>
    ((Segment.extract rules text).filter fun segment =>
      (destination? target segment.path).isNone).map fun segment => .escaping blob segment.path

/-- Write the segments of the readable blobs that have a destination, and nothing else. -/
def writeReadable (options : Options) (rules : List AliasRule) (fs : FileSystem)
    (blobs : List Path) : Batch :=
  writeAll options.dryRun ⟨fs, .empty⟩ (plannedWrites options rules fs (readableOf fs blobs))

theorem filterMap_failure?_segmentEvents (target blob : Path) (segments : List Segment) :
    (segments.map (segmentEvent target blob)).filterMap Event.failure? =
      (segments.filter fun segment => (destination? target segment.path).isNone).map
        fun segment => .escaping blob segment.path := by
  induction segments with
  | nil => rfl
  | cons segment segments ih =>
      rw [List.map_cons, List.filterMap_cons, ih, segmentEvent, List.filter_cons]
      cases destination? target segment.path <;> rfl

/-- What the events record as failures. -/
theorem filterMap_failure?_plannedEvents (target : Path) (rules : List AliasRule)
    (fs : FileSystem) (blobs : List Path) :
    (plannedEvents target rules fs blobs).filterMap Event.failure? =
      blobs.flatMap (refusals target rules fs) := by
  rw [plannedEvents, List.filterMap_flatMap]
  congr 1
  funext blob
  rw [refusals, readSegments]
  cases fs.readText blob with
  | error e => rfl
  | ok text => exact filterMap_failure?_segmentEvents target blob _

/-- A blob that cannot be read has nothing to write. -/
theorem plannedWrites_readableOf (options : Options) (rules : List AliasRule) (fs : FileSystem)
    (blobs : List Path) :
    plannedWrites options rules fs (readableOf fs blobs) =
      plannedWrites options rules fs blobs := by
  rw [plannedWrites, plannedWrites]
  induction blobs with
  | nil => rfl
  | cons blob blobs ih =>
      rw [readableOf, List.filter_cons, List.flatMap_cons, ← ih]
      rcases readSegments_cases rules fs blob with
        ⟨e, hread, hfailure⟩ | ⟨segments, hread, hfailure⟩
      · rw [hread, hfailure]
        rfl
      · rw [hfailure]
        rfl

/-- A distribution has done what it would do without the refused blobs and segments, and these are
its other failures, in their order. -/
structure Isolates (options : Options) (rules : List AliasRule) (fs : FileSystem)
    (blobs : List Path) : Prop where
  absorbs : Absorbs Event.Refuses (plannedEvents options.target rules fs blobs)
    (files options rules fs blobs) (writeReadable options rules fs blobs)
  writes : (files options rules fs blobs).report.failures.filter (·.kind = "write") =
    (writeReadable options rules fs blobs).report.failures
  refused : (files options rules fs blobs).report.failures.filter (·.kind ≠ "write") =
    blobs.flatMap (refusals options.target rules fs)

theorem files_isolates (options : Options) (rules : List AliasRule) (fs : FileSystem)
    (blobs : List Path) : Isolates options rules fs blobs := by
  have hkinds : ∀ failure ∈ (plannedEvents options.target rules fs blobs).filterMap
      Event.failure?, failure.kind ≠ "write" := by
    intro failure hfailure
    have hnone := List.countP_eq_zero.mp (writes_plannedEvents options.target rules fs blobs)
    simpa using hnone failure hfailure
  have habsorbs : Absorbs Event.Refuses (plannedEvents options.target rules fs blobs)
      (files options rules fs blobs) (writeReadable options rules fs blobs) := by
    rw [files_eq, writeReadable, plannedWrites_readableOf, ← filterMap_write?_plannedEvents]
    exact absorbs_performAll _ _ _
  refine ⟨habsorbs, habsorbs.failures.filter_eq ?_ ?_, ?_⟩
  · intro event hevent failure hfailure
    exact decide_eq_false (hkinds failure (List.mem_filterMap.mpr ⟨event, hevent, hfailure⟩))
  · intro failure hfailure
    exact decide_eq_true (kind_of_mem_writeAll hfailure)
  · rw [files_eq, failures_performAll (fun _ _ => rfl), ← filterMap_failure?_plannedEvents]
    exact List.filter_eq_self.mpr fun failure hfailure => decide_eq_true (hkinds failure hfailure)

end Distribute

/-- A file that fails leaves the rest of its batch as it is. Of flattening this holds exactly when
no source is displaced by the unreadable ones before it, which takes a first write that uncovers a
file. Of distributing it holds for any blobs in any file system. -/
theorem failures_isolated {flat : Flatten.Options} {tree : FileSystem} {sources : List Path}
    (hlinks : tree.LinkFree) (hsteady : Flatten.Steady flat Flatten.chunkSize tree sources)
    (spread : Distribute.Options) (rules : List AliasRule) (fs : FileSystem) (blobs : List Path) :
    (Absorbs (Flatten.Refuses tree) sources (Flatten.files flat tree sources)
        (Flatten.files flat tree (Flatten.filesOf tree sources)) ↔
        ¬Flatten.Displaced flat Flatten.chunkSize tree sources) ∧
      (Flatten.Displaced flat Flatten.chunkSize tree sources →
        Flatten.FirstUncovers flat tree (Flatten.filesOf tree sources)) ∧
      Distribute.Isolates spread rules fs blobs := by
  obtain ⟨habsorbs, hneeds⟩ := Flatten.inChunks_absorbs_iff hlinks hsteady
  exact ⟨habsorbs, hneeds, Distribute.files_isolates spread rules fs blobs⟩

/-- A missing source does not keep two files of one name from being flattened into a new directory,
and a missing blob and an unsafe segment do not keep a segment from being written. -/
theorem besideMissing_failures_isolated :
    Absorbs (Flatten.Refuses Flatten.twoFiles) Flatten.missingBetween
        (Flatten.files (Flatten.numberedInto ⟨['o']⟩) Flatten.twoFiles Flatten.missingBetween)
        (Flatten.files (Flatten.numberedInto ⟨['o']⟩) Flatten.twoFiles
          (Flatten.filesOf Flatten.twoFiles Flatten.missingBetween)) ∧
      (Distribute.files Distribute.behindLink [⟨['@', '/'], ['/']⟩] Distribute.besideLink
          [⟨['m']⟩, ⟨['b', '.', 'c']⟩]).report.failures.filter (·.kind ≠ "write") =
        [.read ⟨['m']⟩ .notFound, .escaping ⟨['b', '.', 'c']⟩ ['/', 'a', '.', 'b']] := by
  have hlinks : Flatten.twoFiles.LinkFree := linkFree_of_entries (by simp [Flatten.twoFiles])
  have hmissing : ∀ front ∈ Flatten.missingBetween.inits,
      (Flatten.files (Flatten.numberedInto ⟨['o']⟩) Flatten.twoFiles front).fs.readText ⟨['m']⟩ =
        .error .notFound := by
    decide +kernel
  have hfiles : ∀ source ∈ Flatten.missingBetween, source ≠ ⟨['m']⟩ →
      Flatten.twoFiles.isFile source = true := by decide
  have hsteady : Flatten.Steady (Flatten.numberedInto ⟨['o']⟩) Flatten.chunkSize Flatten.twoFiles
      Flatten.missingBetween := by
    intro source hsource
    by_cases hm : source = ⟨['m']⟩
    · right
      intro front hfront
      rw [hm]
      exact ⟨.notFound, hmissing front ((List.mem_inits _ _).mpr hfront)⟩
    · exact Or.inl (hfiles source hsource hm)
  obtain ⟨habsorbs, hneeds, hisolates⟩ := failures_isolated hlinks hsteady Distribute.behindLink
    [⟨['@', '/'], ['/']⟩] Distribute.besideLink [⟨['m']⟩, ⟨['b', '.', 'c']⟩]
  constructor
  · apply habsorbs.mpr
    intro hdisplaced
    obtain ⟨name, hfound, huncovers⟩ := hneeds hdisplaced
    have hname : (Flatten.filesOf Flatten.twoFiles Flatten.missingBetween).findSome?
        Path.fileName? = some ['a'] := by decide
    obtain rfl := Option.some.inj (hname.symm.trans hfound)
    revert huncovers
    decide
  · rw [hisolates.refused]
    decide +kernel

end TreeFold
