import TreeFold.Proofs.Distribute.Run

/-!
# The last writer wins

A real distribution attempts the segments of its blobs in their order, as the blobs read before the
first write, even when a blob is itself a destination. Each file that was written then holds the
last text written there, and nothing of what it held before. Every other file is as it was.

Destinations are compared by the locations that they spell, so that `a`, `./a` and `.//a` are one.
-/

namespace TreeFold.Distribute

open FileSystem Text

/-- Every location that was written holds the last text written there, and every other file is as
it was. -/
structure LastWriterWins (fs : FileSystem) (writes : List (Path × Text)) (now : FileSystem) :
    Prop where
  overwritten : ∀ front path text back location, writes = front ++ (path, text) :: back →
    path.lexicalLocation? fs.workingDir = some location →
    (∀ write ∈ back, write.1.lexicalLocation? fs.workingDir ≠ some location) →
    now.get? location = some (.file (encodeUtf8 text))
  untouched : ∀ location bytes,
    (∀ write ∈ writes, write.1.lexicalLocation? fs.workingDir ≠ some location) →
    (now.get? location = some (.file bytes) ↔ fs.get? location = some (.file bytes))

variable {options : Options} {rules : List AliasRule} {fs now : FileSystem} {blobs : List Path}
  {writes : List (Path × Text)}

/-- What was written is told apart by lexical locations when no path is empty. -/
theorem lastWriterWins_of_wrote (hwrote : Wrote fs writes now)
    (hne : ∀ write ∈ writes, write.1.text ≠ []) : LastWriterWins fs writes now := by
  have hlexical : ∀ write ∈ writes,
      write.1.lexicalLocation? fs.workingDir = some (write.1.spelled fs.workingDir) := by
    intro write hwrite
    rw [Path.lexicalLocation?_eq, if_neg (hne write hwrite)]
  have helsewhere : ∀ part location, part ⊆ writes →
      (∀ write ∈ part, write.1.lexicalLocation? fs.workingDir ≠ some location) →
      lastWrite fs.workingDir part location = none := by
    intro part location hpart hpaths
    apply lastWrite_eq_none_iff.mpr
    intro write hwrite hspelled
    apply hpaths write hwrite
    rw [hlexical write (hpart hwrite), hspelled]
  constructor
  · rintro front path text back location rfl hlocation hback
    have hspelled : path.spelled fs.workingDir = location := by
      have hpath := hlexical (path, text) (by simp)
      exact Option.some.inj (hpath.symm.trans hlocation)
    have hnone : lastWrite fs.workingDir back location = none :=
      helsewhere back location (by simp) hback
    have hlast : lastWrite fs.workingDir (front ++ (path, text) :: back) location = some text := by
      rw [List.append_cons, lastWrite_append, hnone, Option.none_or, lastWrite_concat,
        if_pos hspelled]
    apply (hwrote.file_iff location _).mpr
    rw [hlast]
  · intro location bytes hwrites
    rw [hwrote.file_iff, helsewhere writes location (List.Subset.refl writes) hwrites]

/-- In a real distribution the last of the successful writes wins, and the report lists these
writes. -/
theorem files_lastWriterWins (hfs : fs.LinkFree) (hreal : options.dryRun = false)
    (rules : List AliasRule) (blobs : List Path) :
    LastWriterWins fs (fs.succeeding (plannedWrites options rules fs blobs))
        (files options rules fs blobs).fs ∧
      (files options rules fs blobs).report.outputs =
        (fs.succeeding (plannedWrites options rules fs blobs)).map Prod.fst := by
  constructor
  · apply lastWriterWins_of_wrote (wrote_succeeding hreal rules hfs blobs)
    exact ne_nil_of_mem_succeeding fs _
  · exact outputs_files hreal rules fs blobs

/-- A blob with two segments for its own place, spelled differently, and one below it. -/
def ownBlob : Text :=
  ['#', 'b', '.', 'c', '\n', 'X', '\n', '#', '.', '/', 'b', '.', 'c', '\n', 'Y', '\n',
    '#', 'b', '.', 'c', '/', 'd', '.', 'e', '\n', 'Z', '\n']

/-- The blob and another file. -/
def besideOwnBlob : FileSystem :=
  ⟨[([['b', '.', 'c']], .file (encodeUtf8 ownBlob)), ([['k']], .file [107])], []⟩

/-- Distributing into the working directory. -/
def intoWorkingDir : Options :=
  ⟨⟨['.']⟩, false⟩

/-- The second segment takes the place of the blob, the third one fails, and the other file
stays. -/
theorem besideOwnBlob_lastWriterWins :
    (files intoWorkingDir [] besideOwnBlob [⟨['b', '.', 'c']⟩]).fs.get? [['b', '.', 'c']] =
        some (.file (encodeUtf8 ['Y', '\n'])) ∧
      (files intoWorkingDir [] besideOwnBlob [⟨['b', '.', 'c']⟩]).fs.get? [['k']] =
        some (.file [107]) := by
  have hfs : besideOwnBlob.LinkFree := linkFree_of_entries (by simp [besideOwnBlob])
  have hreal : intoWorkingDir.dryRun = false := rfl
  have hwrites : besideOwnBlob.succeeding
      (plannedWrites intoWorkingDir [] besideOwnBlob [⟨['b', '.', 'c']⟩]) =
        [(⟨['.', '/', 'b', '.', 'c']⟩, ['X', '\n'])] ++
          (⟨['.', '/', '.', '/', 'b', '.', 'c']⟩, ['Y', '\n']) :: [] := by decide +kernel
  obtain ⟨hwins, -⟩ := files_lastWriterWins hfs hreal [] [⟨['b', '.', 'c']⟩]
  constructor
  · exact hwins.overwritten _ _ _ _ _ hwrites (by decide) (by simp)
  · apply (hwins.untouched _ _ _).mpr (by decide)
    rw [hwrites]
    decide

end TreeFold.Distribute
