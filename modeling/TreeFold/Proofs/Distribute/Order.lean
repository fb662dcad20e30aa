import TreeFold.Proofs.Distribute.Again
import TreeFold.Proofs.Distribute.Containment
import TreeFold.Proofs.Distribute.Counts
import TreeFold.Proofs.Reorder

/-!
# The order of independent blobs

Blobs are independent when no destination of the one is a destination of another one, or lies above
or below it. In a tree without links they can be distributed in any order. The file system comes to
the same entries, the counts are the same, and the same outputs and failures are listed in another
order.

One thing is told by the order: what the error of a failed write is called when the target steps up.
The first write makes the directories that the way steps out of, and it finds that an entry exists
in place of a directory. To the writes after it the way is open as far as this entry, and to them it
is no directory.
-/

namespace TreeFold.Distribute

open Component TreeFold.Path FileSystem Batch Text

variable {options : Options} {rules : List AliasRule} {fs : FileSystem} {blobs others : List Path}

/-- No destination of the first writes is a destination of the others or lies above one. -/
def NoneAbove (workingDir : Location) (writes others : List (Path × Text)) : Prop :=
  ∀ write ∈ writes, ∀ other ∈ others,
    ∀ location ∈ write.1.lexicalLocation? workingDir,
    ∀ place ∈ other.1.lexicalLocation? workingDir, ¬location <+: place

instance (workingDir : Location) (writes others : List (Path × Text)) :
    Decidable (NoneAbove workingDir writes others) :=
  inferInstanceAs (Decidable (∀ write ∈ writes, ∀ other ∈ others,
    ∀ location ∈ write.1.lexicalLocation? workingDir,
    ∀ place ∈ other.1.lexicalLocation? workingDir, ¬location <+: place))

/-- No destination of a blob is a destination of another blob, or lies above or below one. -/
def Independent (options : Options) (rules : List AliasRule) (fs : FileSystem)
    (blobs : List Path) : Prop :=
  ∀ a ∈ blobs, ∀ b ∈ blobs, a ≠ b →
    NoneAbove fs.workingDir (blobWrites options.target (readSegments rules fs a))
      (blobWrites options.target (readSegments rules fs b))

instance (options : Options) (rules : List AliasRule) (fs : FileSystem) (blobs : List Path) :
    Decidable (Independent options rules fs blobs) :=
  inferInstanceAs (Decidable (∀ a ∈ blobs, ∀ b ∈ blobs, a ≠ b → NoneAbove _ _ _))

section Destinations

/-- What a blob writes goes to contained paths behind the target. -/
theorem exists_join_of_mem_blobWrites {target : Path}
    {read : Except FileFailure (List Segment)} {write : Path × Text}
    (h : write ∈ blobWrites target read) :
    ∃ tail : Path, tail.isContained = true ∧ write.1 = target.join tail := by
  cases read with
  | error failure => cases h
  | ok segments =>
      obtain ⟨segment, -, hsome⟩ := List.mem_filterMap.mp h
      obtain ⟨destination, hdestination, rfl⟩ := Option.map_eq_some_iff.mp hsome
      rw [destination?] at hdestination
      split at hdestination
      · rename_i hcontained
        exact ⟨⟨segment.path⟩, hcontained, (Option.some.inj hdestination).symm⟩
      · cases hdestination

/-- The events of independent blobs are separate. -/
theorem Independent.separate (h : Independent options rules fs blobs) {a b : Path}
    (ha : a ∈ blobs) (hb : b ∈ blobs) (hne : a ≠ b) :
    ∀ event ∈ blobEvents options.target (a, readSegments rules fs a),
    ∀ other ∈ blobEvents options.target (b, readSegments rules fs b),
      event.Separate fs.workingDir other := by
  have hwrites : ∀ {blob event write}, event ∈ blobEvents options.target
      (blob, readSegments rules fs blob) → write ∈ event.write? →
      write ∈ blobWrites options.target (readSegments rules fs blob) := by
    intro blob event write hevent hwrite
    rw [← filterMap_write?_blobEvents options.target blob]
    exact List.mem_filterMap.mpr ⟨event, hevent, hwrite⟩
  intro event hevent other hother write hwrite more hmore hpath hpath'
  have hfirst := hwrites hevent hwrite
  have hsecond := hwrites hother hmore
  have hlocation : ∀ path : Path, path.text ≠ [] →
      path.spelled fs.workingDir ∈ path.lexicalLocation? fs.workingDir := by
    intro path hne
    rw [lexicalLocation?_eq, if_neg hne]
    rfl
  have hplace := hlocation _ hpath
  have hplace' := hlocation _ hpath'
  have habove := h a ha b hb hne write hfirst more hsecond _ hplace _ hplace'
  have hbelow := h b hb a ha (Ne.symm hne) more hsecond write hfirst _ hplace' _ hplace
  obtain ⟨tail, htail, heq⟩ := exists_join_of_mem_blobWrites hfirst
  obtain ⟨tail', htail', heq'⟩ := exists_join_of_mem_blobWrites hsecond
  rw [heq, heq'] at habove hbelow ⊢
  exact apart_join options.target htail htail' habove hbelow

/-- Behind a target that does not step up, no failed write is at a path that does. -/
theorem parent_not_mem_of_failure (htarget : .parent ∉ options.target.components) {path : Path}
    {e : Error} (h : .write path e ∈ (files options rules fs blobs).report.failures) :
    .parent ∉ path.components := by
  rw [files_eq] at h
  rcases mem_failures_performAll h with hempty | hfailure | ⟨text, hwrite⟩
  · cases hempty
  · have hnone := List.countP_eq_zero.mp (writes_plannedEvents options.target rules fs blobs) _
      hfailure
    exact absurd rfl (of_decide_eq_false (Bool.eq_false_iff.mpr hnone))
  · rw [filterMap_write?_plannedEvents, plannedWrites] at hwrite
    obtain ⟨blob, -, hwrite⟩ := List.mem_flatMap.mp hwrite
    obtain ⟨tail, htail, rfl⟩ := exists_join_of_mem_blobWrites hwrite
    obtain ⟨hrelative, hparent⟩ := (isContained_iff tail).mp htail
    rw [← parent_mem_moves_iff] at htarget hparent ⊢
    rw [moves_join _ hrelative, List.mem_append, not_or]
    exact ⟨htarget, hparent⟩

end Destinations

/-- Independent blobs can be distributed in any order. The failures are the same in some order when
the target does not step up. -/
theorem files_agrees_of_perm (hfs : fs.LinkFree) (htree : fs.IsTree)
    (hindependent : Independent options rules fs blobs) (hperm : blobs.Perm others) :
    (files options rules fs blobs).Agrees (files options rules fs others) ∧
      (.parent ∉ options.target.components →
        (files options rules fs blobs).report.failures.Perm
          (files options rules fs others).report.failures) := by
  have hbatch : Grounded fs.workingDir (Batch.mk fs .empty).fs := ⟨hfs, htree, rfl⟩
  have hagrees : (files options rules fs blobs).Agrees (files options rules fs others) := by
    rw [files_eq, files_eq]
    exact performAll_perm _ hperm hbatch
      (fun a ha b hb hne => hindependent.separate ha hb hne) options.dryRun
  refine ⟨hagrees, fun htarget => hagrees.report.failures_perm ?_ ?_⟩
  · exact fun path e hmem => parent_not_mem_of_failure htarget hmem
  · exact fun path e hmem => parent_not_mem_of_failure htarget hmem

/-- A file in a directory, and two blobs: the one has a segment below the name of the file. -/
def besideFile : FileSystem :=
  ⟨[([['t']], .directory), ([['t'], ['f']], .file [102]),
    ([['k']], .file (encodeUtf8 ['#', 'f', '/', 'a', '.', 'b', '\n', 'X', '\n'])),
    ([['m']], .file (encodeUtf8 ['#', 'd', '/', 'c', '.', 'd', '\n', 'Y', '\n']))], []⟩

/-- In the other order the one segment is written as well, and the other one fails as well. -/
theorem besideFile_files_agrees :
    (files intoNewDir [] besideFile [⟨['m']⟩, ⟨['k']⟩]).fs.get? [['t'], ['d'], ['c', '.', 'd']] =
        some (.file (encodeUtf8 ['Y', '\n'])) ∧
      (files intoNewDir [] besideFile [⟨['m']⟩, ⟨['k']⟩]).report.failures =
        [.write ⟨['t', '/', 'f', '/', 'a', '.', 'b']⟩ .alreadyExists] := by
  have hfs : besideFile.LinkFree := linkFree_of_entries (by simp [besideFile])
  have htree : besideFile.IsTree := isTree_of_entries (by decide) (by decide)
  have hindependent : Independent intoNewDir [] besideFile [⟨['k']⟩, ⟨['m']⟩] := by
    decide +kernel
  obtain ⟨hagrees, hfailures⟩ := files_agrees_of_perm hfs htree hindependent
    (List.Perm.swap (Path.mk ['m']) (Path.mk ['k']) [])
  constructor
  · rw [hagrees.entries.entry]
    decide +kernel
  · have hperm := hfailures (by decide)
    have hone : (files intoNewDir [] besideFile [⟨['k']⟩, ⟨['m']⟩]).report.failures =
        [.write ⟨['t', '/', 'f', '/', 'a', '.', 'b']⟩ .alreadyExists] := by
      decide +kernel
    rw [hone] at hperm
    exact List.perm_singleton.mp hperm.symm

/-- Where the target steps up, the two failures change their errors when the blobs change places. -/
theorem belowFile_failures_not_perm :
    besideFile.LinkFree ∧ besideFile.IsTree ∧
      Independent belowFile [] besideFile [⟨['k']⟩, ⟨['m']⟩] ∧
      (∀ blob ∈ [⟨['k']⟩, ⟨['m']⟩], besideFile.isFile blob = true) ∧
      ¬(files belowFile [] besideFile [⟨['k']⟩, ⟨['m']⟩]).report.failures.Perm
        (files belowFile [] besideFile [⟨['m']⟩, ⟨['k']⟩]).report.failures := by
  refine ⟨linkFree_of_entries (by simp [besideFile]), isTree_of_entries (by decide) (by decide),
    by decide +kernel, by decide, by decide +kernel⟩

end TreeFold.Distribute
