import TreeFold.Proofs.Distribute.Run
import TreeFold.Proofs.FileSystem.ReadBack
import TreeFold.Proofs.FileTree.Counts
import TreeFold.Proofs.Text.LineCount

/-!
# Two ways to count lines

The lines of a segment are those of its content, while the lines of a file are counted on its bytes.
A file that holds the content has the same count, unless a line before the last one ends in a break
without a line feed. So the tree of a directory shows a segment that was distributed below it with
the count of the segment.
-/

namespace TreeFold

open FileSystem Text Distribute FileTree

variable {options : Distribute.Options} {rules : List AliasRule} {before fs : FileSystem}
  {blobs : List Path} {segment : Segment} {destination directory file : Path} {count : Nat}

/-- A real distribution has written the segment, and no later write ended at its place. -/
structure Distributes (options : Distribute.Options) (rules : List AliasRule)
    (before : FileSystem) (blobs : List Path) (segment : Segment) (destination : Path) : Prop where
  real : options.dryRun = false
  lastWritten : ∃ front back,
    before.succeeding (plannedWrites options rules before blobs) =
        front ++ (destination, segment.content) :: back ∧
      ∀ write ∈ back, (files options rules before blobs).fs.stat write.1 ≠
        (files options rules before blobs).fs.stat destination

/-- Every tree that lists the file has it as a node with the count, and shows it on a line that ends
in its name and the count, unless it lies too deep. -/
def ShowsCount (fs : FileSystem) (file : Path) (count : Nat) : Prop :=
  ∀ (walker : Walker) (directory : Path), fs.isDirectory directory = true →
    file ∈ walker.files fs directory →
    ∃ names name, file = directory.descendant (names ++ [name]) ∧
      (ofWalk walker fs directory).get? (names ++ [name]) = some (some count) ∧
      ∀ (flags : CommandLine.Flags) (depth? : Option Nat) (root : Path),
        depth?.all ((names ++ [name]).length ≤ ·) = true →
        ∃ line ∈ CommandLine.directoryLines flags depth? walker fs root directory,
          label (!flags.noColor) name (some count) <:+ line

/-- The bytes of the content are counted as the segment, but for lines that another break ends. -/
theorem exists_countLines (hholds : fs.readBytes file = .ok (encodeUtf8 segment.content)) :
    ∃ count, fs.countLines file = .ok count ∧
      segment.lineCount = count + otherwiseEnded segment.content := by
  refine ⟨countLineFeeds (encodeUtf8 segment.content), ?_, length_linesInclusive segment.content⟩
  rw [countLines, hholds]
  rfl

theorem showsCount_of_countLines (htree : fs.IsTree) (hkeys : fs.Unambiguous)
    (hcount : fs.countLines file = .ok count) : ShowsCount fs file count := by
  intro walker directory hdirectory hlisted
  obtain ⟨location, hstat⟩ := (isDirectory_iff_stat fs directory).mp hdirectory
  obtain ⟨path, hne, hfile, hnode⟩ := exists_get?_ofWalk htree hkeys hstat hlisted
  obtain ⟨names, name, rfl⟩ := (List.eq_nil_or_concat path).resolve_left hne
  rw [List.concat_eq_append] at hfile hnode
  rw [hcount] at hnode
  refine ⟨names, name, hfile, hnode, fun flags depth? root hdepth => ?_⟩
  have hkept : ((ofWalk walker fs directory).limited depth?).get? (names ++ [name]) =
      some (some count) := by
    rw [get?_limited hdepth]
    exact hnode
  obtain ⟨line, hline, hlabel⟩ := exists_mem_outlineBelow (!flags.noColor) [] hkept
  exact ⟨line, List.mem_append_right _ (List.mem_cons_of_mem _ hline), hlabel⟩

/-- A blob with one segment, whose lines end in two ways, and a file with a lone carriage return. -/
def endedVariously : FileSystem :=
  ⟨[([['g']], .file (encodeUtf8 ['#', 'a', '.', 'c', '\n', 'X', '\r', '\n', 'Y', '\n'])),
    ([['k']], .file (encodeUtf8 ['X', '\r', 'Y', '\n']))], []⟩

/-- The segment in the blob. -/
def mixedEndings : Segment :=
  ⟨['a', '.', 'c'], ['a', '.', 'c'], ['X', '\r', '\n', 'Y', '\n']⟩

end TreeFold
