import Mathlib.Data.List.Forall2
import TreeFold.Proofs.Distribute.Run
import TreeFold.Proofs.FileSystem.Again

/-!
# Distributing again

A second distribution of the same blobs repeats the first one when no segment took the place of a
blob: every write that succeeded puts the same text again, and every write that failed fails again
and changes nothing. The file system is then as the first one has left it, and the reports agree in
their counts, outputs and failures.

A failed write can be reported with another cause when its path steps up or ends in a dot. Two file
systems show the two ways.
-/

namespace TreeFold

open Component TreeFold.Path FileSystem Text

/-- The failures are the same, or the same write has failed for another cause at a path that steps
up or ends in a dot. -/
def FileFailure.Alike (first again : FileFailure) : Prop :=
  again = first ∨ ∃ path e e', ¬IsDirect path ∧ first = .write path e ∧ again = .write path e'

/-- The reports have the same counts and outputs, and their failures are alike one by one. -/
structure Report.Repeats (first again : Report) : Prop where
  processed : again.processed = first.processed
  written : again.written = first.written
  skipped : again.skipped = first.skipped
  outputs : again.outputs = first.outputs
  failures : List.Forall₂ FileFailure.Alike first.failures again.failures

theorem FileFailure.Alike.refl (failure : FileFailure) : failure.Alike failure :=
  Or.inl rfl

/-- Alike failures are of one kind and belong to one file. -/
theorem FileFailure.Alike.kind_path {first again : FileFailure} (h : first.Alike again) :
    again.kind = first.kind ∧ again.path = first.path := by
  rcases h with rfl | ⟨path, e, e', -, rfl, rfl⟩ <;> exact ⟨rfl, rfl⟩

namespace Report.Repeats

variable {first again : Report} {a b : FileFailure}

theorem refl (report : Report) : report.Repeats report :=
  ⟨rfl, rfl, rfl, rfl, List.forall₂_same.mpr fun failure _ => .refl failure⟩

theorem recordInput (h : first.Repeats again) : first.recordInput.Repeats again.recordInput :=
  ⟨congrArg (· + 1) h.processed, h.written, h.skipped, h.outputs, h.failures⟩

theorem recordWrite (h : first.Repeats again) (path : Path) :
    (first.recordWrite path).Repeats (again.recordWrite path) :=
  ⟨h.processed, congrArg (· + 1) h.written, h.skipped, congrArg (· ++ [path]) h.outputs,
    h.failures⟩

theorem recordFailure (h : first.Repeats again) (hfailure : a.Alike b) :
    (first.recordFailure a).Repeats (again.recordFailure b) :=
  ⟨h.processed, h.written, h.skipped, h.outputs,
    List.rel_append h.failures (.cons hfailure .nil)⟩

/-- Where every failed write is at a path that neither steps up nor ends in a dot, the failures are
the same. -/
theorem failures_eq (h : first.Repeats again)
    (hdirect : ∀ path e, .write path e ∈ first.failures → IsDirect path) :
    again.failures = first.failures := by
  have hfailures := h.failures
  generalize first.failures = before at hfailures hdirect
  generalize again.failures = after at hfailures
  induction hfailures with
  | nil => rfl
  | cons halike _ ih =>
      rw [ih fun path e hmem => hdirect path e (List.mem_cons_of_mem _ hmem)]
      rcases halike with rfl | ⟨path, e, e', hnot, rfl, rfl⟩
      · rfl
      · exact absurd (hdirect path e List.mem_cons_self) hnot

/-- Reports whose warnings are those of their failures are the same when their failures are. -/
theorem eq_of_failures (h : first.Repeats again) (hfailures : again.failures = first.failures)
    (hfirst : first.warnings = first.failures.map (·.message))
    (hagain : again.warnings = again.failures.map (·.message)) : again = first := by
  obtain ⟨hprocessed, hwritten, hskipped, houtputs, -⟩ := h
  rw [hfailures, ← hfirst] at hagain
  cases first
  cases again
  simp only at hprocessed hwritten hskipped houtputs hfailures hagain
  simp only [hprocessed, hwritten, hskipped, houtputs, hfailures, hagain]

end Report.Repeats

namespace Batch

variable {first again batch : Batch} {path : Path} {text : Text} {event : Event}
  {events : List Event} {after : FileSystem} {e : Error}

/-- Where every warning is about a failure, this stays so. -/
theorem warnings_performAll {dryRun : Bool}
    (h : batch.report.warnings = batch.report.failures.map (·.message)) (events : List Event) :
    (batch.performAll dryRun events).report.warnings =
      (batch.performAll dryRun events).report.failures.map (·.message) := by
  induction events generalizing batch with
  | nil => exact h
  | cons event events ih =>
      rw [performAll_cons]
      apply ih
      have hfailure : ∀ failure, (batch.report.recordFailure failure).warnings =
          (batch.report.recordFailure failure).failures.map (·.message) := by
        intro failure
        simp [Report.recordFailure, h]
      cases event with
      | input => exact h
      | failure cause => exact hfailure cause
      | write path text =>
          rw [Event.perform, write]
          split
          · exact h
          · split
            · exact h
            · exact hfailure _

/-- A second run repeats the first one up to here: what the first run still does is kept in the file
system of the second one. -/
structure Echoes (first again : Batch) (events : List Event) : Prop where
  linkFree : first.fs.LinkFree
  isTree : first.fs.IsTree
  linkFreeAgain : again.fs.LinkFree
  isTreeAgain : again.fs.IsTree
  retains : (first.fs.attempt (events.filterMap Event.write?)).Retains again.fs
  report : first.report.Repeats again.report

namespace Echoes

/-- What a write of the first run leaves is kept in the second one. -/
theorem retains_write (h : Echoes first again (.write path text :: events)) :
    (first.fs.overwrite path text).fs.Retains again.fs :=
  (retains_attempt (linkFree_overwrite h.linkFree path text) _).trans h.retains

/-- A write that has succeeded puts the same text again. -/
theorem written (h : Echoes first again (.write path text :: events))
    (hwrite : first.fs.overwrite path text = ⟨none, after⟩) :
    again.fs.overwrite path text = ⟨none, again.fs.rewrite [(path, text)]⟩ ∧
      Echoes ⟨after, first.report.recordWrite path⟩
        ⟨again.fs.rewrite [(path, text)], again.report.recordWrite path⟩ events := by
  have hretains := h.retains_write
  have hafter := linkFree_overwrite h.linkFree path text
  have hafterTree := h.isTree.overwrite path text
  rw [hwrite] at hretains hafter hafterTree
  obtain ⟨⟨held, hheld⟩, hagain⟩ := overwrite_again_of_none h.linkFree h.isTree h.linkFreeAgain
    h.isTreeAgain hwrite hretains text
  have hnil : path.spelled again.fs.workingDir ≠ [] := by
    intro hnil
    rw [hnil] at hheld
    cases hheld
  refine ⟨hagain, hafter, hafterTree, h.linkFreeAgain.put hnil (by simp),
    h.isTreeAgain.put_file hheld _, ?_, h.report.recordWrite path⟩
  have hnext := h.retains
  have hsome : Event.write? (.write path text) = some (path, text) := rfl
  rw [List.filterMap_cons_some hsome, attempt_cons, hwrite] at hnext
  exact hnext.trans (Retains.put_file hnil (by simp [hheld]) _)

/-- A write that has failed fails again and changes nothing. -/
theorem failed (h : Echoes first again (.write path text :: events))
    (hwrite : first.fs.overwrite path text = ⟨some e, after⟩) :
    ∃ e', again.fs.overwrite path text = ⟨some e', again.fs⟩ ∧
      Echoes ⟨after, first.report.recordFailure (.write path e)⟩
        ⟨again.fs, again.report.recordFailure (.write path e')⟩ events := by
  have hretains := h.retains_write
  have hafter := linkFree_overwrite h.linkFree path text
  have hafterTree := h.isTree.overwrite path text
  rw [hwrite] at hretains hafter hafterTree
  obtain ⟨e', hagain, hsame⟩ := overwrite_again_of_some h.linkFree h.isTree h.linkFreeAgain
    h.isTreeAgain hwrite hretains text
  have halike : (FileFailure.write path e).Alike (.write path e') := by
    by_cases hdirect : IsDirect path
    · rw [hsame hdirect]
      exact .refl _
    · exact Or.inr ⟨path, e, e', hdirect, rfl, rfl⟩
  refine ⟨e', hagain, hafter, hafterTree, h.linkFreeAgain, h.isTreeAgain, ?_,
    h.report.recordFailure halike⟩
  have hnext := h.retains
  have hsome : Event.write? (.write path text) = some (path, text) := rfl
  rwa [List.filterMap_cons_some hsome, attempt_cons, hwrite] at hnext

/-- The second run puts again what the first one has written, and its report repeats the other. -/
theorem performAll (h : Echoes first again events) :
    (again.performAll false events).fs =
        again.fs.rewrite (first.fs.succeeding (events.filterMap Event.write?)) ∧
      (first.performAll false events).report.Repeats (again.performAll false events).report := by
  induction events generalizing first again with
  | nil => exact ⟨rfl, h.report⟩
  | cons event events ih =>
      rw [performAll_cons, performAll_cons]
      cases event with
      | input =>
          have hnext : (Event.perform false first .input).Echoes
              (Event.perform false again .input) events :=
            ⟨h.linkFree, h.isTree, h.linkFreeAgain, h.isTreeAgain, h.retains,
              h.report.recordInput⟩
          exact ih hnext
      | failure cause =>
          have hnext : (Event.perform false first (.failure cause)).Echoes
              (Event.perform false again (.failure cause)) events :=
            ⟨h.linkFree, h.isTree, h.linkFreeAgain, h.isTreeAgain, h.retains,
              h.report.recordFailure (.refl cause)⟩
          exact ih hnext
      | write path text =>
          have hsome : Event.write? (.write path text) = some (path, text) := rfl
          rw [List.filterMap_cons_some hsome, Event.perform, Event.perform]
          rcases hwrite : first.fs.overwrite path text with ⟨_ | e, after⟩
          · obtain ⟨hagain, hnext⟩ := h.written hwrite
            rw [write_of_none hwrite, write_of_none hagain, succeeding_cons_of_none hwrite]
            exact ih hnext
          · obtain ⟨e', hagain, hnext⟩ := h.failed hwrite
            rw [write_of_some hwrite, write_of_some hagain, succeeding_cons_of_some hwrite]
            exact ih hnext

end Echoes

end Batch

namespace Distribute

variable {options : Options} {rules : List AliasRule} {fs : FileSystem} {blobs : List Path}

/-- No planned write goes to the place of a blob. -/
def SparesBlobs (options : Options) (rules : List AliasRule) (fs : FileSystem)
    (blobs : List Path) : Prop :=
  ∀ write ∈ plannedWrites options rules fs blobs, ∀ blob ∈ blobs,
    write.1.lexicalLocation? fs.workingDir ≠ blob.lexicalLocation? fs.workingDir

/-- A blob that is spared reads the same after a real distribution. -/
theorem readBytes_again (hfs : fs.LinkFree) (hreal : options.dryRun = false)
    (hspares : SparesBlobs options rules fs blobs) {blob : Path} (hmem : blob ∈ blobs)
    (hfile : fs.isFile blob = true) :
    (files options rules fs blobs).fs.readBytes blob = fs.readBytes blob := by
  obtain ⟨location, bytes, hstat⟩ := (isFile_iff fs blob).mp hfile
  have hwrote := wrote_succeeding hreal rules hfs blobs
  obtain ⟨held, hheld, hkept⟩ := stat_file_retains hfs hwrote.retains hstat
  have helsewhere : ∀ write ∈ fs.succeeding (plannedWrites options rules fs blobs),
      write.1.spelled fs.workingDir ≠ location := by
    intro write hwrite hspelled
    apply hspares write (succeeding_subset _ _ hwrite) blob hmem
    rw [lexicalLocation?_of_stat hfs hstat, lexicalLocation?_eq,
      if_neg (ne_nil_of_mem_succeeding fs _ write hwrite), hspelled]
  have hsame := (hwrote.file_iff_of_ne helsewhere).mp hheld
  rw [(stat_ok hfs hstat).2.1, Option.some.injEq, Entry.file.injEq] at hsame
  rw [readBytes_ok_iff.mpr ⟨location, hkept⟩, readBytes_ok_iff.mpr ⟨location, hstat⟩, hsame]

/-- When all blobs are spared, a second distribution performs the same events. -/
theorem plannedEvents_again (hfs : fs.LinkFree) (hreal : options.dryRun = false)
    (hspares : SparesBlobs options rules fs blobs)
    (hblobs : ∀ blob ∈ blobs, fs.isFile blob = true) :
    plannedEvents options.target rules (files options rules fs blobs).fs blobs =
      plannedEvents options.target rules fs blobs := by
  rw [plannedEvents, plannedEvents]
  apply List.flatMap_congr
  intro blob hmem
  rw [readSegments, readSegments, readText, readText,
    readBytes_again hfs hreal hspares hmem (hblobs blob hmem)]

/-- The warnings of a distribution are those of its failures. -/
theorem warnings_files (options : Options) (rules : List AliasRule) (fs : FileSystem)
    (blobs : List Path) :
    (files options rules fs blobs).report.warnings =
      (files options rules fs blobs).report.failures.map (·.message) := by
  rw [files_eq]
  apply Batch.warnings_performAll
  rfl

/-- A second distribution that spares the blobs leaves the file system as the first one has left it,
and its report repeats the first one. It is the same report when every failed write is at a path
that neither steps up nor ends in a dot. -/
theorem files_again (hfs : fs.LinkFree) (htree : fs.IsTree)
    (hspares : SparesBlobs options rules fs blobs)
    (hblobs : ∀ blob ∈ blobs, fs.isFile blob = true) :
    (files options rules (files options rules fs blobs).fs blobs).fs =
        (files options rules fs blobs).fs ∧
      (files options rules fs blobs).report.Repeats
        (files options rules (files options rules fs blobs).fs blobs).report ∧
      ((∀ path e, .write path e ∈ (files options rules fs blobs).report.failures →
          IsDirect path) →
        (files options rules (files options rules fs blobs).fs blobs).report =
          (files options rules fs blobs).report) := by
  cases hreal : options.dryRun with
  | true =>
      have hsame : (files options rules fs blobs).fs = fs := by
        rw [files_eq, hreal]
        exact Batch.fs_performAll_dry _ _
      rw [hsame]
      exact ⟨hsame, .refl _, fun _ => rfl⟩
  | false =>
      have hwrote := wrote_succeeding hreal rules hfs blobs
      have hechoes : Batch.Echoes ⟨fs, .empty⟩ ⟨(files options rules fs blobs).fs, .empty⟩
          (plannedEvents options.target rules fs blobs) := by
        refine ⟨hfs, htree, hwrote.linkFree, ?_, ?_, .refl _⟩
        · rw [fs_files hreal]
          exact htree.attempt _
        · rw [filterMap_write?_plannedEvents, fs_files hreal]
          exact Retains.refl _
      obtain ⟨hfinal, hrepeats⟩ := hechoes.performAll
      have hagain : files options rules (files options rules fs blobs).fs blobs =
          Batch.performAll false ⟨(files options rules fs blobs).fs, .empty⟩
            (plannedEvents options.target rules fs blobs) := by
        rw [files_eq, hreal, plannedEvents_again hfs hreal hspares hblobs]
      have hfirst : files options rules fs blobs =
          Batch.performAll false ⟨fs, .empty⟩ (plannedEvents options.target rules fs blobs) := by
        rw [files_eq, hreal]
      rw [← hagain, ← hfirst] at hrepeats
      rw [← hagain, filterMap_write?_plannedEvents, rewrite_eq_self] at hfinal
      · refine ⟨hfinal, hrepeats, fun hdirect => ?_⟩
        exact hrepeats.eq_of_failures (hrepeats.failures_eq hdirect)
          (warnings_files options rules fs blobs) (warnings_files options rules _ blobs)
      · intro location text hlast
        rw [hwrote.workingDir] at hlast
        apply (hwrote.file_iff location _).mpr
        simp only [hlast]

/-- A blob with a segment, one for a place below the first, and one for the place of the first. -/
def clashingBlob : Text :=
  ['#', 'a', '.', 'b', '\n', 'X', '\n', '#', 'a', '.', 'b', '/', 'c', '.', 'd', '\n', 'Y', '\n',
    '#', 'a', '.', 'b', '\n', 'Z', '\n']

/-- The blob alone. -/
def clashingAlone : FileSystem :=
  ⟨[([['k']], .file (encodeUtf8 clashingBlob))], []⟩

/-- Distributing into a new directory. -/
def intoNewDir : Options :=
  ⟨⟨['t']⟩, false⟩

/-- The second segment fails in the same way again, and the first is replaced by the third again. -/
theorem clashing_files_again :
    (files intoNewDir [] clashingAlone [⟨['k']⟩]).report.failures =
        [.write ⟨['t', '/', 'a', '.', 'b', '/', 'c', '.', 'd']⟩ .alreadyExists] ∧
      files intoNewDir [] (files intoNewDir [] clashingAlone [⟨['k']⟩]).fs [⟨['k']⟩] =
        files intoNewDir [] clashingAlone [⟨['k']⟩] := by
  have hfs : clashingAlone.LinkFree := linkFree_of_entries (by simp [clashingAlone])
  have htree : clashingAlone.IsTree := isTree_of_entries (by decide) (by decide)
  have hspares : SparesBlobs intoNewDir [] clashingAlone [⟨['k']⟩] := by
    rw [SparesBlobs]
    decide +kernel
  have hfailures : (files intoNewDir [] clashingAlone [⟨['k']⟩]).report.failures =
      [.write ⟨['t', '/', 'a', '.', 'b', '/', 'c', '.', 'd']⟩ .alreadyExists] := by
    decide +kernel
  obtain ⟨hsame, -, hreport⟩ := files_again hfs htree hspares (by decide)
  refine ⟨hfailures, ?_⟩
  have hdirect : ∀ path e, .write path e ∈
      (files intoNewDir [] clashingAlone [⟨['k']⟩]).report.failures → IsDirect path := by
    intro path e hmem
    rw [hfailures, List.mem_singleton, FileFailure.write.injEq] at hmem
    rw [hmem.1]
    decide
  exact congrArg₂ Batch.mk hsame (hreport hdirect)

/-- A blob with a segment for a directory, by an alias, and one below it. -/
def dottedBlob : Text :=
  ['#', 'x', '.', 'y', '\n', 'X', '\n', '#', 'x', '/', 'a', '.', 'b', '\n', 'Y', '\n']

/-- The blob alone. -/
def dottedAlone : FileSystem :=
  ⟨[([['k']], .file (encodeUtf8 dottedBlob))], []⟩

/-- The alias that ends in a dot. -/
def toDotted : List AliasRule :=
  [⟨['x', '.', 'y'], ['x', '/', '.']⟩]

/-- A file in a directory and a blob. -/
def fileInTheWay : FileSystem :=
  ⟨[([['t']], .directory), ([['t'], ['f']], .file [102]),
    ([['k']], .file (encodeUtf8 ['#', 'a', '.', 'b', '\n', 'X', '\n']))], []⟩

/-- Distributing below the file, on a way that steps out of a missing directory. -/
def belowFile : Options :=
  ⟨⟨['t', '/', 'n', '/', '.', '.', '/', 'f', '/', 'd']⟩, false⟩

/-- The same write can fail for another cause: a path that ends in a dot names a directory that was
missing at first, and a path that steps out of a missing directory leads to a file once that
directory is made. -/
theorem files_again_otherCause :
    (dottedAlone.LinkFree ∧ dottedAlone.IsTree ∧
      SparesBlobs intoNewDir toDotted dottedAlone [⟨['k']⟩] ∧
      dottedAlone.isFile ⟨['k']⟩ = true ∧
      (files intoNewDir toDotted dottedAlone [⟨['k']⟩]).report.failures =
        [.write ⟨['t', '/', 'x', '/', '.']⟩ .notFound] ∧
      (files intoNewDir toDotted (files intoNewDir toDotted dottedAlone [⟨['k']⟩]).fs
        [⟨['k']⟩]).report.failures = [.write ⟨['t', '/', 'x', '/', '.']⟩ .isDirectory]) ∧
    (fileInTheWay.LinkFree ∧ fileInTheWay.IsTree ∧
      SparesBlobs belowFile [] fileInTheWay [⟨['k']⟩] ∧ fileInTheWay.isFile ⟨['k']⟩ = true ∧
      (files belowFile [] fileInTheWay [⟨['k']⟩]).report.failures =
        [.write ⟨belowFile.target.text ++ ['/', 'a', '.', 'b']⟩ .alreadyExists] ∧
      (files belowFile [] (files belowFile [] fileInTheWay [⟨['k']⟩]).fs
        [⟨['k']⟩]).report.failures =
        [.write ⟨belowFile.target.text ++ ['/', 'a', '.', 'b']⟩ .notDirectory]) := by
  constructor
  · refine ⟨linkFree_of_entries (by simp [dottedAlone]),
      isTree_of_entries (by decide) (by decide), ?_, by decide, by decide +kernel,
      by decide +kernel⟩
    rw [SparesBlobs]
    decide +kernel
  · refine ⟨linkFree_of_entries (by simp [fileInTheWay]),
      isTree_of_entries (by decide) (by decide), ?_, by decide, by decide +kernel,
      by decide +kernel⟩
    rw [SparesBlobs]
    decide +kernel

end Distribute

end TreeFold
