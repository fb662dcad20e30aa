import TreeFold.Proofs.CommandLine.Flatten
import TreeFold.Proofs.SourceList
import TreeFold.Proofs.Walk.Listed

/-!
# Lists of what a walk lists

Put behind the root, the path of a file as it is seen from the root is the path under which a walk
lists the file, however the root is spelled. So a list of such paths names the listed files, each as
often as it holds it and in its order, as long as their paths are UTF-8 and can be asked for. The
flatten command then does with the list of all files what it does with the files of the walk. Other
entries may be of any bytes; one that is not UTF-8 names what it reads as.
-/

namespace TreeFold

open TreeFold.Path FileSystem Text

variable {walker : Walker} {fs : FileSystem} {root list file : Path} {files missing : List Path}
  {strays : List (List UInt8)}

namespace SourceList

/-- The bytes of a file as it is seen from the root. -/
def lineOf (root file : Path) : List UInt8 :=
  encodeUtf8 (file.relativeOrSelf root).text

/-- The file at the path of the list names the files as they are seen from the root, each on a line,
and has other entries between them. -/
def Holds (fs : FileSystem) (root list : Path) (files : List Path) (strays : List (List UInt8)) :
    Prop :=
  ∃ listed bytes, Interleaved (files.map (lineOf root)) strays listed ∧ Lists listed bytes ∧
    fs.readBytes list = .ok bytes

theorem named_lineOf (root file : Path) :
    named root (lineOf root file) = root.join (file.relativeOrSelf root) := by
  rw [named, lineOf, decodeLossy_encodeUtf8]

/-- What a list names as a file is one. -/
theorem isFile_of_mem_read (h : read fs list root = .ok (files, missing)) (hfile : file ∈ files) :
    fs.isFile file = true := by
  rw [read] at h
  cases htext : fs.readText list with
  | error e => simp [htext, Except.map] at h
  | ok text =>
      simp only [htext, Except.map, Except.ok.injEq, split, List.partition_eq_filter_filter,
        Prod.mk.injEq] at h
      rw [← h.1] at hfile
      exact (List.mem_filter.mp hfile).2

section Walk

variable (htree : fs.IsTree) (hkeys : fs.Unambiguous) (hdirectory : fs.isDirectory root = true)
include htree hkeys hdirectory

/-- Put behind the root, the path of a listed file as seen from the root is its path. -/
theorem named_lineOf_of_mem (hfile : file ∈ walker.files fs root) :
    named root (lineOf root file) = file := by
  obtain ⟨location, hstat⟩ := (isDirectory_iff_stat fs root).mp hdirectory
  obtain ⟨names, bytes, hne, rfl, hget⟩ := Walker.exists_of_mem_filesIn hkeys hstat hfile
  have hnames := htree.isEntryName_behind hget
  rw [named_lineOf, relativeOrSelf_descendant (text_ne_nil_of_stat hstat) hnames hne,
    join_ofNames root hnames hne]

/-- A listed file is found under its path, when the path is short enough. -/
theorem isFile_of_mem_files (hfit : fs.NamesFit) (hfile : file ∈ walker.files fs root)
    (hshort : byteLength file.text ≤ maxPathLength) : fs.isFile file = true := by
  obtain ⟨location, hstat⟩ := (isDirectory_iff_stat fs root).mp hdirectory
  obtain ⟨names, bytes, -, rfl, hget⟩ := Walker.exists_of_mem_filesIn hkeys hstat hfile
  exact htree.isFile_descendant hfit hstat hget hshort

/-- Reading the list gives the files back, and the other entries when they are no files. -/
theorem read_of_holds (hfit : fs.NamesFit) (hfiles : ∀ file ∈ files, file ∈ walker.files fs root)
    (hshort : ∀ file ∈ files, byteLength file.text ≤ maxPathLength)
    (hholds : Holds fs root list files strays)
    (hstrays : ∀ stray ∈ strays, fs.isFile (named root stray) = false) :
    read fs list root = .ok (files, strays.map (named root)) := by
  obtain ⟨listed, bytes, hmixed, hlists, hbytes⟩ := hholds
  have hback : ∀ file ∈ files, named root (lineOf root file) = file := fun file hfile =>
    named_lineOf_of_mem htree hkeys hdirectory (hfiles file hfile)
  have hnamed : (files.map (lineOf root)).map (named root) = files := by
    rw [List.map_map]
    exact (List.map_congr_left hback).trans (List.map_id files)
  have hfound : ∀ entry ∈ files.map (lineOf root), fs.isFile (named root entry) = true := by
    intro entry hentry
    obtain ⟨file, hfile, rfl⟩ := List.mem_map.mp hentry
    rw [hback file hfile]
    exact isFile_of_mem_files htree hkeys hdirectory hfit (hfiles file hfile) (hshort file hfile)
  rw [read_eq root hbytes, entries_of_lists root hlists, split_of_interleaved hmixed hfound hstrays,
    hnamed]

end Walk

end SourceList

namespace CommandLine

/-- The same outcome but for further warnings, which come between the others. -/
def Outcome.AddsWarnings (outcome further : Outcome) (added : List Text) : Prop :=
  ∃ front back, outcome.warnings = front ++ back ∧
    further = { outcome with warnings := front ++ added ++ back }

namespace FlattenCommand

variable {command : FlattenCommand} {flags : Flags} {environment : Environment}
  {settings : Settings} {encoding : Path.Encoding}

/-- The command with its sources taken from the walk below the root. -/
def walking (command : FlattenCommand) : FlattenCommand :=
  { command with fromList? := none, directory? := none }

/-- What was said before does not change what is done with the sources. -/
theorem flattened_addsWarnings (fs : FileSystem) (warnings added : List Text)
    (selected : Selected) :
    (command.flattened flags environment settings encoding fs warnings selected).AddsWarnings
      (command.flattened flags environment settings encoding fs (warnings ++ added) selected)
      added := by
  rw [flattened, flattened]
  split
  · exact ⟨warnings, [], (List.append_nil _).symm, by rw [List.append_nil]; rfl⟩
  · rw [endBatch, endBatch]
    split
    · exact ⟨warnings, _, rfl, rfl⟩
    · exact ⟨warnings, _, rfl, rfl⟩

/-- A run with a list of all files that a walk lists does what the run with the walk does. -/
theorem run_of_holds (htree : fs.IsTree) (hkeys : fs.Unambiguous) (hfit : fs.NamesFit)
    (hload : Settings.load fs environment here = .ok settings)
    (hwalker : command.walker settings = .ok walker)
    (hdirectory : fs.isDirectory (command.rootPath environment) = true)
    (hshort : ∀ file ∈ walker.files fs (command.rootPath environment),
      byteLength file.text ≤ maxPathLength)
    (hlist : command.fromList? = some list)
    (hholds : SourceList.Holds fs (command.rootPath environment) (list.expand environment).1
      (walker.files fs (command.rootPath environment)) []) :
    (command.walking.run flags environment fs encoding).AddsWarnings
      (command.run flags environment fs encoding) (list.expand environment).2 := by
  have hselection : command.selection environment =
      (.listed (list.expand environment).1, (list.expand environment).2) := by
    rw [selection, hlist]
  -- The list and the walk select the same, and all that follows depends on the selection only.
  have hread := SourceList.read_of_holds htree hkeys hdirectory hfit (fun _ hfile => hfile) hshort
    hholds (by simp)
  have hlisted : (command.selection environment).1.select walker fs
      (command.rootPath environment) =
        .ok ⟨walker.files fs (command.rootPath environment), []⟩ := by
    rw [hselection, Selection.select, hread]
    rfl
  have hwalked : (command.walking.selection environment).1.select walker fs
      (command.walking.rootPath environment) =
        .ok ⟨walker.files fs (command.rootPath environment), []⟩ :=
    if_pos hdirectory
  have hwarnings : command.expansionWarnings environment settings =
      command.walking.expansionWarnings environment settings ++ (list.expand environment).2 := by
    have hnone : (command.walking.selection environment).2 = [] := rfl
    rw [expansionWarnings, expansionWarnings, hselection, hnone, List.append_nil]
    rfl
  rw [run_of_select hload hwalker hlisted, command.walking.run_of_select hload hwalker
    hwalked, hwarnings]
  exact flattened_addsWarnings fs _ _ _

end FlattenCommand

end CommandLine

open CommandLine

/-- Below a directory, however it is spelled, a list of files of the walk is read as these files,
each as often as the list holds it and in its order, and as missing are given the paths that the
other entries read as, in their order, when they are no files. For this the paths of the files have
to be short enough to be asked for. With a list of all files of the walk the flatten command does
what it does with the walk, but for warnings about the name of the list. -/
theorem listMode_agrees (htree : fs.IsTree) (hkeys : fs.Unambiguous) (hfit : fs.NamesFit) :
    (∀ (walker : Walker) (root list : Path) (files : List Path) (strays : List (List UInt8)),
      fs.isDirectory root = true →
      (∀ file ∈ files, file ∈ walker.files fs root) →
      (∀ file ∈ files, byteLength file.text ≤ maxPathLength) →
      SourceList.Holds fs root list files strays →
      (∀ stray ∈ strays, fs.isFile (root.join ⟨decodeLossy stray⟩) = false) →
      SourceList.read fs list root =
        .ok (files, strays.map fun stray => root.join ⟨decodeLossy stray⟩)) ∧
    ∀ (command : FlattenCommand) (flags : Flags) (environment : Environment) (settings : Settings)
      (encoding : Path.Encoding) (walker : Walker) (list : Path),
      Settings.load fs environment here = .ok settings → command.walker settings = .ok walker →
      fs.isDirectory (command.rootPath environment) = true →
      (∀ file ∈ walker.files fs (command.rootPath environment),
        byteLength file.text ≤ maxPathLength) →
      command.fromList? = some list →
      SourceList.Holds fs (command.rootPath environment) (list.expand environment).1
        (walker.files fs (command.rootPath environment)) [] →
      (command.walking.run flags environment fs encoding).AddsWarnings
        (command.run flags environment fs encoding) (list.expand environment).2 := by
  constructor
  · intro walker root list files strays hdirectory hfiles hshort hholds hstrays
    exact SourceList.read_of_holds htree hkeys hdirectory hfit hfiles hshort hholds hstrays
  · intro command flags environment settings encoding walker list hload hwalker hdirectory hshort
      hlist hholds
    exact FlattenCommand.run_of_holds htree hkeys hfit hload hwalker hdirectory hshort hlist hholds

/-- A directory with a file, and two lists: one names the file twice, with a blank line and an entry
that is not UTF-8 between, and the other once. -/
def listedTwice : FileSystem :=
  ⟨[([['x']], .directory), ([['x'], ['a']], .file [97]),
    ([['l']], .file [97, 10, 13, 10, 32, 103, 255, 13, 10, 9, 97]),
    ([['m']], .file [97, 10])], []⟩

/-- Flatten what the second list names. -/
def fromSecondList : FlattenCommand :=
  ⟨ofString "./x/", some (ofString "o"), none, [], [], some (ofString "m"), none, none, false,
    false, false⟩

/-- The file is found twice and the other entry is missing as it reads, and the command flattens the
file with the second list as it does with the walk. -/
theorem listedTwice_agrees :
    SourceList.read listedTwice ⟨['l']⟩ (ofString "./x/") =
        .ok ([ofString "./x/a", ofString "./x/a"], [⟨"./x/g".toList ++ [replacement]⟩]) ∧
      (fromSecondList.walking.run ⟨false, false, false, false⟩ ⟨[]⟩ listedTwice
        .utf8).AddsWarnings
          (fromSecondList.run ⟨false, false, false, false⟩ ⟨[]⟩ listedTwice .utf8) [] := by
  have htree : listedTwice.IsTree := isTree_of_entries (by decide) (by decide)
  have hfit : listedTwice.NamesFit := namesFit_of_entries (by decide)
  have hdirectory : listedTwice.isDirectory (ofString "./x/") = true := by decide
  obtain ⟨hread, hrun⟩ := listMode_agrees htree (by decide) hfit
  obtain ⟨walker, hwalker, hfiles⟩ : ∃ walker, fromSecondList.walker .defaults = .ok walker ∧
      walker.files listedTwice (ofString "./x/") = [ofString "./x/a"] := by
    have hwalk : (fromSecondList.walker .defaults).toOption.map
        (·.files listedTwice (ofString "./x/")) = some [ofString "./x/a"] := by
      decide +kernel
    have hparses : (fromSecondList.walker .defaults).toOption.isSome = true := by
      rw [← Option.isSome_map, hwalk]
      rfl
    obtain ⟨walker, hwalker⟩ := FlattenCommand.exists_walker hparses
    rw [hwalker] at hwalk
    exact ⟨walker, hwalker, Option.some.inj hwalk⟩
  have hfirst : SourceList.Holds listedTwice (ofString "./x/") ⟨['l']⟩
      [ofString "./x/a", ofString "./x/a"] [[103, 255]] := by
    have hnone : SourceList.IsPadding [] := by decide
    have hlast : SourceList.Lists [[97]] (encodeUtf8 ['\t'] ++ [97] ++ encodeUtf8 []) :=
      .last (by decide) (by decide) hnone
    have hstray : SourceList.Lists [[103, 255], [97]]
        (encodeUtf8 [' '] ++ [103, 255] ++ encodeUtf8 ['\r', '\n'] ++ [9, 97]) :=
      .entry (by decide) (by decide) hnone (Or.inr rfl) hlast
    have hblank : SourceList.Lists [[103, 255], [97]]
        (encodeUtf8 ['\r', '\n'] ++ [32, 103, 255, 13, 10, 9, 97]) :=
      .blank hnone (Or.inr rfl) hstray
    have hlists : SourceList.Lists [[97], [103, 255], [97]]
        (encodeUtf8 [] ++ [97] ++ encodeUtf8 ['\n'] ++ [13, 10, 32, 103, 255, 13, 10, 9, 97]) :=
      .entry hnone (by decide) hnone (Or.inl rfl) hblank
    exact ⟨_, _, .left _ (.right _ (.left _ .nil)), hlists, rfl⟩
  have hsecond : SourceList.Holds listedTwice (ofString "./x/") ⟨['m']⟩
      (walker.files listedTwice (ofString "./x/")) [] := by
    rw [hfiles]
    exact ⟨[[97]], _, .left _ .nil, SourceList.lists_flatMap (by decide), rfl⟩
  constructor
  · exact hread walker (ofString "./x/") ⟨['l']⟩ _ _ hdirectory
      (fun file hfile => by simpa [hfiles] using hfile) (by decide) hfirst (by decide)
  · have hshort : ∀ file ∈ walker.files listedTwice (ofString "./x/"),
        byteLength file.text ≤ maxPathLength := by
      rw [hfiles]
      decide
    exact hrun fromSecondList _ ⟨[]⟩ .defaults .utf8 walker (ofString "m") rfl hwalker hdirectory
      hshort rfl hsecond

/-- Any list of files of the walk is read as these files. -/
def SourceList.ReadsBack (walker : Walker) (fs : FileSystem) (root : Path) : Prop :=
  ∀ files list, (∀ file ∈ files, file ∈ walker.files fs root) → Holds fs root list files [] →
    read fs list root = .ok (files, [])

/-- A file, a list that names it, and a list with an entry that is not UTF-8. -/
def listedOnce : FileSystem :=
  ⟨[([['a']], .file []), ([['l']], .file [97, 10]), ([['m']], .file [97, 255, 10])], []⟩

theorem not_readsBack_slashes {count : Nat} (hpos : count ≠ 0) (hcount : count = maxPathLength) :
    ¬SourceList.ReadsBack (Walker.sparing []) listedOnce (slashes count) := by
  intro h
  have htree : listedOnce.IsTree := isTree_of_entries (by decide) (by decide)
  have hstat := stat_slashes listedOnce hpos (Nat.le_of_eq hcount)
  have hroot := text_ne_nil_of_stat hstat
  have hline : ((slashes count).descendant [['a']]).relativeOrSelf (slashes count) = ⟨['a']⟩ :=
    relativeOrSelf_descendant hroot (by decide) (by decide)
  have hwalked : (slashes count).descendant [['a']] ∈
      (Walker.sparing []).files listedOnce (slashes count) := by
    refine (Walker.mem_filesIn_iff htree (by decide) (fun h => by cases h) hstat).mpr
      ⟨Walker.same_standardInput_of_isAbsolute (isAbsolute_slashes hpos), [['a']], rfl, ?_, ?_⟩
    · exact (isDirectory_iff_stat _ _).mpr ⟨[], hstat⟩
    · refine Walker.qualifies_sparing rfl (by simp [Walker.Hidden]) ?_
      rw [Walker.seenFrom, hline]
      decide
  have hholds : SourceList.Holds listedOnce (slashes count) ⟨['l']⟩
      [(slashes count).descendant [['a']]] [] := by
    refine ⟨[[97]], _, ?_, SourceList.lists_flatMap (by decide), rfl⟩
    rw [List.map_singleton, SourceList.lineOf, hline]
    exact SourceList.interleaved_self _
  have hread := h [(slashes count).descendant [['a']]] ⟨['l']⟩ (by simpa using hwalked) hholds
  have hfile := SourceList.isFile_of_mem_read hread List.mem_cons_self
  obtain ⟨location, bytes, hfound⟩ := (isFile_iff _ _).mp hfile
  have hcheck : checkPath ((slashes count).child ['a']) = .ok () := (follow_of_stat hfound).1
  exact checkPath_slashes_child hpos (Nat.le_of_eq hcount.symm) (by decide) hcheck

/-- Behind as many slashes as a path can have, the file is listed by the walk but not found by the
list. And an entry that is not UTF-8 is not read as the path with its bytes. -/
theorem not_readsBack :
    (listedOnce.IsTree ∧ listedOnce.Unambiguous ∧ listedOnce.NamesFit ∧
      listedOnce.isDirectory (slashes maxPathLength) = true ∧
        ¬SourceList.ReadsBack (Walker.sparing []) listedOnce (slashes maxPathLength)) ∧
      SourceList.read listedOnce ⟨['m']⟩ ⟨['.']⟩ = .ok ([], [⟨['.', '/', 'a', replacement]⟩]) ∧
        encodeUtf8 ['a', replacement] ≠ [97, 255] := by
  refine ⟨⟨isTree_of_entries (by decide) (by decide), by decide, namesFit_of_entries (by decide),
    ?_, not_readsBack_slashes (by decide) rfl⟩, by decide, by decide⟩
  exact (isDirectory_iff_stat _ _).mpr ⟨[], stat_slashes _ (by decide) (Nat.le_refl _)⟩

end TreeFold
