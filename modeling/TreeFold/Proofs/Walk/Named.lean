import Mathlib.Data.List.Pairwise
import TreeFold.CommandLine.Flatten
import TreeFold.Proofs.Walk.Distinct
import TreeFold.Proofs.Walk.Listing

/-!
# Directories with a name

The directories below a root that have a name may lie in each other. Walking each of them and
keeping the first occurrence of every file gives the files of the walk from the root that have a
directory of that name above them, in the same order.
-/

namespace TreeFold.Walker

open TreeFold.Path TreeFold.FileSystem

variable {walker : Walker} {fs : FileSystem} {root path : Path} {location : Location} {name : Name}
  {above names : List Name}

/-- Whether one of the directories above a path, strictly below the root, has a name. -/
def isBelowNamed (root : Path) (name : Name) (path : Path) : Bool :=
  (path.components.drop root.components.length).dropLast.contains (.normal name)

theorem isBelowNamed_descendant_iff (root : Path) (name : Name)
    (hnames : ∀ name ∈ names, IsEntryName name) :
    isBelowNamed root name (root.descendant names) = true ↔ name ∈ names.dropLast := by
  rw [isBelowNamed, components_descendant root hnames, List.drop_left, List.contains_iff_mem,
    ← List.map_dropLast, List.mem_map]
  constructor
  · rintro ⟨other, hother, heq⟩
    rwa [← Component.normal.inj heq]
  · exact fun h => ⟨name, h, rfl⟩

/-- What lies below a path is a place to walk. -/
theorem same_standardInput_descendant (hroot : root.text ≠ [])
    (hnames : ∀ name ∈ names, IsEntryName name) (hne : names ≠ []) :
    (root.descendant names).same standardInput = false := by
  have hstandard : standardInput.components = [.normal ['-']] := by decide
  have hlong : 2 ≤ (root.descendant names).components.length := by
    rw [components_descendant root hnames, List.length_append, List.length_map]
    have hfirst := List.length_pos_iff.mpr (components_ne_nil hroot)
    have hsecond := List.length_pos_iff.mpr hne
    omega
  rw [Path.same, decide_eq_false_iff_not]
  intro heq
  rw [heq, hstandard] at hlong
  simp at hlong

theorem pairwise_directoriesNamed (htree : fs.IsTree) (hkeys : fs.Unambiguous)
    (hrules : walker.Unsteered fs) (root : Path) (wanted : List Name) :
    (walker.directoriesNamed fs root wanted).Pairwise Before := by
  rw [directoriesNamed]
  split
  · exact List.Pairwise.nil
  · apply pairwise_sort
    apply List.Pairwise.filter
    refine (pairwise_below htree hkeys hrules root root).filterMap _ ?_
    rintro ⟨a, entry⟩ ⟨b, held⟩ hne x hx y hy
    simp only at hx hy
    split at hx <;> cases hx
    split at hy <;> cases hy
    exact hne

section Root

variable (htree : fs.IsTree) (hkeys : fs.Unambiguous) (hrules : walker.Unsteered fs)
  (hstat : fs.stat root = .ok (location, .directory))
include htree hkeys hrules hstat

/-- The directories with a name are those that the walk meets under it. -/
theorem mem_directoriesNamed_iff {wanted : List Name} :
    path ∈ walker.directoriesNamed fs root wanted ↔
      root.same standardInput = false ∧
        ∃ above, ∃ name ∈ wanted, path = root.descendant (above ++ [name]) ∧
          walker.Meets fs root root location 0 (above ++ [name]) .directory := by
  rw [directoriesNamed]
  cases root.same standardInput with
  | true => simp
  | false =>
      simp only [Bool.false_eq_true, if_false, true_and, mem_sort, List.mem_filter,
        List.mem_filterMap]
      constructor
      · rintro ⟨⟨⟨met, entry⟩, hmet, hdirectory⟩, hname⟩
        dsimp only at hdirectory
        split at hdirectory
        · rename_i hentry
          cases hdirectory
          subst hentry
          obtain ⟨names, hne, rfl, hmeets⟩ := (mem_below_iff htree hkeys hrules hstat).mp hmet
          rw [fileName?_descendant _ (hmeets.isEntryName htree) hne, Option.any_eq_true] at hname
          obtain ⟨name, hlast, hwanted⟩ := hname
          obtain ⟨above, rfl⟩ := List.getLast?_eq_some_iff.mp hlast
          exact ⟨above, name, List.contains_iff_mem.mp hwanted, rfl, hmeets⟩
        · cases hdirectory
      · rintro ⟨above, name, hwanted, rfl, hmeets⟩
        have hne := List.concat_ne_nil name above
        refine ⟨⟨_, (mem_below_iff htree hkeys hrules hstat).mpr ⟨_, hne, rfl, hmeets⟩,
          if_pos rfl⟩, ?_⟩
        rw [fileName?_descendant _ (hmeets.isEntryName htree) hne, Option.any_eq_true]
        exact ⟨name, List.getLast?_concat, List.contains_iff_mem.mpr hwanted⟩

/-- A walk from a directory that the walk from the root meets lists what that one meets below it. -/
theorem mem_filesIn_descendant_iff (hdepth : walker.maxDepth? = none) (hne : above ≠ [])
    (habove : walker.Meets fs root root location 0 above .directory) :
    path ∈ walker.filesIn fs root (root.descendant above) ↔
      ∃ names, names ≠ [] ∧ path = root.descendant (above ++ names) ∧
        ∃ bytes, walker.Meets fs root root location 0 (above ++ names) (.file bytes) ∧
          walker.selects root path = true := by
  cases hstart : fs.stat (root.descendant above) with
  | error e =>
      rw [filesIn_eq_nil walker root hstart]
      refine iff_of_false List.not_mem_nil ?_
      rintro ⟨names, hnames, -, bytes, hmeets, -⟩
      have hopen := hmeets.opens above (List.prefix_append _ _) (by simpa using hnames)
      rw [isDirectory, hstart] at hopen
      cases hopen
  | ok found =>
      obtain ⟨start, held⟩ := found
      obtain ⟨rfl, rfl⟩ := htree.eq_of_stat_descendant hstat habove.isEntry (by simp) hstart
      rw [mem_filesIn_iff_meets htree hkeys hrules hstart, same_standardInput_descendant
        (text_ne_nil_of_stat hstat) (habove.isEntryName htree) hne]
      simp only [true_and]
      constructor
      · rintro ⟨names, rfl, bytes, hmeets, hselects⟩
        have hnil := ne_nil_of_file habove.isEntry hmeets.isEntry
        rw [← descendant_append] at hselects ⊢
        exact ⟨names, hnil, rfl, bytes, (meets_append_iff htree hne hnil).mpr
          ⟨habove, hmeets.atDepth hdepth _⟩, hselects⟩
      · rintro ⟨names, hnil, rfl, bytes, hmeets, hselects⟩
        rw [descendant_append] at hselects ⊢
        exact ⟨names, rfl, bytes,
          ((meets_append_iff htree hne hnil).mp hmeets).2.atDepth hdepth 0, hselects⟩

/-- The files below the directories with a name are the files of the walk from the root that have
a directory of that name above them. -/
theorem mem_flatMap_directoriesNamed_iff (hdepth : walker.maxDepth? = none) :
    path ∈ (walker.directoriesNamed fs root [name]).flatMap (walker.filesIn fs root) ↔
      path ∈ walker.files fs root ∧ isBelowNamed root name path = true := by
  rw [List.mem_flatMap, files, mem_filesIn_iff_meets htree hkeys hrules hstat]
  constructor
  · rintro ⟨directory, hdirectory, hfile⟩
    obtain ⟨hstandard, above, other, hother, rfl, habove⟩ :=
      (mem_directoriesNamed_iff htree hkeys hrules hstat).mp hdirectory
    obtain rfl := List.mem_singleton.mp hother
    obtain ⟨names, hnil, rfl, bytes, hmeets, hselects⟩ :=
      (mem_filesIn_descendant_iff htree hkeys hrules hstat hdepth (List.concat_ne_nil _ _)
        habove).mp hfile
    refine ⟨⟨hstandard, _, rfl, bytes, hmeets, hselects⟩, ?_⟩
    rw [isBelowNamed_descendant_iff root other (hmeets.isEntryName htree),
      List.dropLast_append_of_ne_nil hnil]
    exact List.mem_append_left _ (List.mem_append_right _ (List.mem_singleton_self other))
  · rintro ⟨⟨hstandard, names, rfl, bytes, hmeets, hselects⟩, hbelow⟩
    rw [isBelowNamed_descendant_iff root name (hmeets.isEntryName htree)] at hbelow
    -- The names are cut behind the name, which is not the last of them.
    obtain ⟨front, back, hsplit⟩ := List.append_of_mem hbelow
    have hne : names ≠ [] := by
      rintro rfl
      cases hbelow
    obtain ⟨last, hwhole⟩ : ∃ last, names = (front ++ [name]) ++ (back ++ [last]) := by
      refine ⟨names.getLast hne, ?_⟩
      rw [List.append_assoc, List.singleton_append, ← List.cons_append, ← List.append_assoc,
        ← hsplit, List.dropLast_append_getLast hne]
    subst hwhole
    obtain ⟨habove, -⟩ := (meets_append_iff htree (by simp) (by simp)).mp hmeets
    exact ⟨_, (mem_directoriesNamed_iff htree hkeys hrules hstat).mpr
        ⟨hstandard, front, name, List.mem_singleton_self name, rfl, habove⟩,
      (mem_filesIn_descendant_iff htree hkeys hrules hstat hdepth (by simp) habove).mpr
        ⟨back ++ [last], by simp, rfl, bytes, hmeets, hselects⟩⟩

/-- Among the directories with a name, the files below one that lies in another are files below
that one too. -/
theorem filesIn_subset (hdepth : walker.maxDepth? = none) {outer inner : Path}
    (houter : outer ∈ walker.directoriesNamed fs root [name])
    (hinner : inner ∈ walker.directoriesNamed fs root [name])
    (hstart : outer.components <+: inner.components) :
    walker.filesIn fs root inner ⊆ walker.filesIn fs root outer := by
  obtain ⟨-, a, last, -, rfl, ha⟩ :=
    (mem_directoriesNamed_iff htree hkeys hrules hstat).mp houter
  obtain ⟨-, b, last', -, rfl, hb⟩ :=
    (mem_directoriesNamed_iff htree hkeys hrules hstat).mp hinner
  obtain ⟨more, hmore⟩ :=
    prefix_of_components_descendant (ha.isEntryName htree) (hb.isEntryName htree) hstart
  intro file hfile
  obtain ⟨names, hnil, rfl, hmeets⟩ :=
    (mem_filesIn_descendant_iff htree hkeys hrules hstat hdepth (List.concat_ne_nil _ _) hb).mp
      hfile
  refine (mem_filesIn_descendant_iff htree hkeys hrules hstat hdepth (List.concat_ne_nil _ _)
    ha).mpr ⟨more ++ names, List.append_ne_nil_of_right_ne_nil _ hnil, ?_⟩
  rw [← List.append_assoc, hmore]
  exact ⟨rfl, hmeets⟩

/-- The files below the directories with a name, each taken once, are in ascending order. -/
theorem pairwise_distinct_named (hdepth : walker.maxDepth? = none) (name : Name) :
    (Selection.distinct
      ((walker.directoriesNamed fs root [name]).flatMap (walker.filesIn fs root))).Pairwise
        Before := by
  apply Selection.pairwise_distinct_flatMap
  · exact pairwise_directoriesNamed htree hkeys hrules root [name]
  · exact fun directory _ => pairwise_filesIn htree hkeys hrules root directory
  · intro directory hdirectory file hfile
    obtain ⟨-, above, last, -, rfl, habove⟩ :=
      (mem_directoriesNamed_iff htree hkeys hrules hstat).mp hdirectory
    obtain ⟨names, -, rfl, bytes, hmeets, -⟩ :=
      (mem_filesIn_descendant_iff htree hkeys hrules hstat hdepth (List.concat_ne_nil _ _)
        habove).mp hfile
    have hnames := hmeets.isEntryName htree
    rw [descendant_append _ _ names, components_descendant _ fun other hother =>
      hnames other (List.mem_append_right _ hother)]
    exact List.prefix_append _ _
  · exact fun outer houter inner hinner =>
      filesIn_subset htree hkeys hrules hstat hdepth houter hinner

end Root

section Elsewhere

variable (hnone : ∀ location, fs.stat root ≠ .ok (location, .directory))
include hnone

/-- Below what is no directory there is nothing. -/
theorem below_eq_nil (walker : Walker) (base : Path) : walker.below fs base root = [] := by
  rw [below]
  split
  · rename_i location hstat
    exact absurd hstat (hnone location)
  · rfl

theorem directoriesNamed_eq_nil (walker : Walker) (wanted : List Name) :
    walker.directoriesNamed fs root wanted = [] := by
  rw [directoriesNamed, below_eq_nil hnone]
  split
  · rfl
  · simp [Path.sort]

/-- Where the root is no directory, it is the only file that can be listed. -/
theorem filter_isBelowNamed_eq_nil (walker : Walker) (name : Name) :
    (walker.files fs root).filter (isBelowNamed root name) = [] := by
  apply List.filter_eq_nil_iff.mpr
  intro file hfile
  have hself : file = root := by
    rw [files, filesIn, below_eq_nil hnone, List.append_nil] at hfile
    split at hfile
    · cases hfile
    · rw [mem_sort, List.mem_filter, List.mem_filterMap] at hfile
      obtain ⟨⟨met, hmet, hpath⟩, -⟩ := hfile
      rw [startFile] at hmet
      split at hmet
      · rw [List.mem_singleton.mp hmet] at hpath
        exact (Option.some.inj hpath).symm
      · cases hmet
  rw [hself, isBelowNamed, List.drop_length]
  simp

end Elsewhere

/-- The command sets no limit to the depth of its walks. -/
theorem maxDepth?_of_command {command : CommandLine.FlattenCommand} {settings : Settings}
    (h : command.walker settings = .ok walker) : walker.maxDepth? = none := by
  rw [CommandLine.FlattenCommand.walker] at h
  cases hignored : Glob.Set.parse (settings.ignoreGlobs ++ command.ignoreGlobs) with
  | error e => simp [hignored, bind, Except.bind] at h
  | ok ignored =>
      cases htaken : Glob.Set.parse (if command.includeGlobs = []
          then settings.flatten.includeGlobs else command.includeGlobs) with
      | error e => simp [hignored, htaken, bind, Except.bind] at h
      | ok taken =>
          simp only [hignored, htaken, bind, Except.bind, pure, Except.pure, Except.ok.injEq] at h
          rw [← h]
          rfl

/-- The files below the directories with a name, each taken once, are the files of the walk from the
root that have a directory of that name above them, in the same order. -/
theorem distinct_named_eq_filter (htree : fs.IsTree) (hkeys : fs.Unambiguous)
    (hrules : walker.Unsteered fs) (hdepth : walker.maxDepth? = none) (root : Path) (name : Name) :
    Selection.distinct
        ((walker.directoriesNamed fs root [name]).flatMap (walker.filesIn fs root)) =
      (walker.files fs root).filter (isBelowNamed root name) := by
  by_cases hstat : ∃ location, fs.stat root = .ok (location, .directory)
  · obtain ⟨location, hstat⟩ := hstat
    have hfiles := pairwise_filesIn htree hkeys hrules root root
    have hmem : ∀ path, path ∈
          (walker.directoriesNamed fs root [name]).flatMap (walker.filesIn fs root) ↔
        path ∈ walker.files fs root ∧ isBelowNamed root name path = true := fun path =>
      mem_flatMap_directoriesNamed_iff htree hkeys hrules hstat hdepth
    have hsymm : Std.Symm fun a b : Path => a.components ≠ b.components :=
      ⟨fun _ _ hab heq => hab heq.symm⟩
    refine (pairwise_distinct_named htree hkeys hrules hstat hdepth name).eq_of_mem_iff
      (hfiles.filter _) fun path => ?_
    rw [Selection.mem_distinct_iff, hmem, List.mem_filter]
    intro a ha b hb heq
    by_contra hne
    exact (hfiles.imp fun h => h.components_ne).forall ((hmem a).mp ha).1 ((hmem b).mp hb).1 hne heq
  · have hnone : ∀ location, fs.stat root ≠ .ok (location, .directory) := fun location h =>
      hstat ⟨location, h⟩
    rw [directoriesNamed_eq_nil hnone, filter_isBelowNamed_eq_nil hnone]
    rfl

/-- Selecting the directories with a name for the command takes the files of the walk from the root
that have a directory of that name above them, strictly ascending and each once. Only where no
directory has the name is there an error. -/
theorem select_named_eq_filter (htree : fs.IsTree) (hkeys : fs.Unambiguous)
    {command : CommandLine.FlattenCommand} {settings : Settings}
    (hwalker : command.walker settings = .ok walker)
    (hrules : walker.Unsteered fs) (root : Path) (name : Name) :
    Selection.distinct
          ((walker.directoriesNamed fs root [name]).flatMap (walker.filesIn fs root)) =
        (walker.files fs root).filter (isBelowNamed root name) ∧
      ((walker.files fs root).filter (isBelowNamed root name)).Pairwise Before ∧
        ((walker.files fs root).filter (isBelowNamed root name)).Nodup ∧
          (Selection.named name).select walker fs root =
            if walker.directoriesNamed fs root [name] = [] then .error (.noneNamed name root)
            else .ok ⟨(walker.files fs root).filter (isBelowNamed root name), []⟩ := by
  have hdepth := maxDepth?_of_command hwalker
  have hequal := distinct_named_eq_filter htree hkeys hrules hdepth root name
  have hsorted := (pairwise_filesIn htree hkeys hrules root root).filter (isBelowNamed root name)
  refine ⟨hequal, hsorted, hsorted.imp fun h heq => h.components_ne (congrArg components heq), ?_⟩
  rw [Selection.select]
  cases hdirectories : walker.directoriesNamed fs root [name] with
  | nil => rfl
  | cons first rest =>
      rw [if_neg (List.cons_ne_nil _ _), ← hequal, hdirectories]

/-- Directories of one name in each other, each with a file, and a file beside them. -/
def nestedNames : FileSystem :=
  ⟨[([['c']], .file []), ([['t']], .directory), ([['t'], ['a']], .file []),
    ([['t'], ['t']], .directory), ([['t'], ['t'], ['b']], .file [])], []⟩

/-- Flatten the directories of that name. -/
def fromNested : CommandLine.FlattenCommand :=
  ⟨⟨['.']⟩, none, none, [], [], none, some ['t'], none, false, false, false⟩

/-- The file of the inner directory is selected, and the file beside the directories is not. -/
theorem nestedNames_select :
    nestedNames.IsTree ∧ nestedNames.Unambiguous ∧ nestedNames.HoldsNoIgnoreFiles ∧
      fromNested.walker { Settings.defaults with ignoreGlobs := [] } = .ok (.ignoring ⟨[]⟩) ∧
        ∃ selected, (Selection.named ['t']).select (.ignoring ⟨[]⟩) nestedNames ⟨['.']⟩ =
            .ok selected ∧
          selected.sources =
            ((Walker.ignoring ⟨[]⟩).files nestedNames ⟨['.']⟩).filter (isBelowNamed ⟨['.']⟩ ['t']) ∧
          ⟨['.', '/', 't', '/', 't', '/', 'b']⟩ ∈ selected.sources ∧
          ⟨['.', '/', 'c']⟩ ∉ selected.sources := by
  have htree : nestedNames.IsTree := isTree_of_entries (by decide) (by decide)
  have hkeys : nestedNames.Unambiguous := by decide
  have hsilent : nestedNames.HoldsNoIgnoreFiles :=
    holdsNoIgnoreFiles_of_entries (linkFree_of_entries (by simp [nestedNames])) (by decide)
  have hwalker : fromNested.walker { Settings.defaults with ignoreGlobs := [] } =
      .ok (.ignoring ⟨[]⟩) := rfl
  have hsome : (Walker.ignoring ⟨[]⟩).directoriesNamed nestedNames ⟨['.']⟩ [['t']] ≠ [] := by
    apply List.ne_nil_of_mem (a := ⟨['.', '/', 't']⟩)
    rw [directoriesNamed, if_neg (by decide)]
    exact mem_sort.mpr (by decide +kernel)
  obtain ⟨-, -, -, hselect⟩ := select_named_eq_filter htree hkeys hwalker
    (fun _ => hsilent) ⟨['.']⟩ ['t']
  rw [if_neg hsome] at hselect
  refine ⟨htree, hkeys, hsilent, hwalker, _, hselect, rfl, ?_, ?_⟩
  · refine List.mem_filter.mpr ⟨?_, by decide⟩
    rw [files, filesIn, if_neg (by decide)]
    exact mem_sort.mpr (by decide +kernel)
  · intro hmem
    exact absurd (List.mem_filter.mp hmem).2 (by decide)

end TreeFold.Walker
