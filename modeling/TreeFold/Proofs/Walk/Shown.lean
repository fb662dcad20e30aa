import Mathlib.Data.List.Infix
import TreeFold.FileTree.Outline
import TreeFold.Proofs.FileTree.Nodes
import TreeFold.Proofs.Walk.Named

/-!
# The files that a tree shows

The tree of a directory found below a root shows the files of a walk from the directory, so globs
see there what lies behind the directory. A walk from the root lists the files below the directory
by what lies behind the root. The two agree where no glob judges a file below the directory, or a
directory on the way to it, differently from the two places.
-/

namespace TreeFold

open TreeFold.Path TreeFold.FileSystem

namespace Walker

variable {walker : Walker} {fs : FileSystem} {globs : Glob.Set} {root directory path : Path}
  {location : Location} {above names : List Name}

/-- Names lead from a directory to a file in a directory that can be opened. -/
structure LeadsToFile (fs : FileSystem) (directory : Path) (location : Location)
    (names : List Name) : Prop where
  isFile : ∃ bytes, fs.get? (location ++ names) = some (.file bytes)
  opens : fs.isDirectory (directory.descendant names.dropLast) = true

/-- No glob matches the file that the names lead to, or a directory on the way, as seen from where
the names above lead to the directory. -/
def Spares (globs : Glob.Set) (above names : List Name) : Prop :=
  ∀ front, front <+: names → front ≠ [] → globs.matches (ofNames (above ++ front)) = false

instance (globs : Glob.Set) (above names : List Name) : Decidable (Spares globs above names) :=
  decidable_of_iff
    (∀ front ∈ names.inits, front ≠ [] → globs.matches (ofNames (above ++ front)) = false)
    (by simp only [Spares, List.mem_inits])

theorem LeadsToFile.isEntryName (h : LeadsToFile fs directory location names)
    (htree : fs.IsTree) : ∀ name ∈ names, IsEntryName name := by
  obtain ⟨bytes, hget⟩ := h.isFile
  exact htree.isEntryName_behind hget

/-- A walk that ignores globs only asks whether they spare the file. -/
theorem qualifies_ignoring_iff {hidden : Name → Prop} {seen : List Name → Path}
    (hseen : ∀ front, (∀ name ∈ front, IsEntryName name) → front ≠ [] →
      seen front = ofNames (above ++ front)) (hnames : ∀ name ∈ names, IsEntryName name) :
    (ignoring globs).Qualifies fs hidden seen location names ↔
      (∃ bytes, fs.get? (location ++ names) = some (.file bytes)) ∧ Spares globs above names := by
  have hspares : (∀ front, front <+: names → front ≠ [] → globs.matches (seen front) = false) ↔
      Spares globs above names := by
    refine forall_congr' fun front => forall_congr' fun hfront => forall_congr' fun hne => ?_
    rw [hseen front (fun name hname => hnames name (hfront.subset hname)) hne]
  rw [← hspares]
  constructor
  · exact fun h => ⟨h.isFile, h.spared⟩
  · rintro ⟨hfile, hspared⟩
    exact ⟨hfile, by simp [ignoring], by simp [ignoring], hspared, by simp [ignoring]⟩

section Found

variable (htree : fs.IsTree) (hkeys : fs.Unambiguous) (hrules : walker.Unsteered fs)
  (hstat : fs.stat root = .ok (location, .directory))
include htree hkeys hrules hstat

/-- The files below a directory that the walk from the root meets are those that a walk from there
lists, with globs seeing the paths from the root. -/
theorem mem_files_iff_mem_filesIn (hdepth : walker.maxDepth? = none) (hne : above ≠ [])
    (hstandard : root.same standardInput = false)
    (habove : walker.Meets fs root root location 0 above .directory)
    (hnames : ∀ name ∈ names, IsEntryName name) :
    (root.descendant above).descendant names ∈ walker.files fs root ↔
      (root.descendant above).descendant names ∈
        walker.filesIn fs root (root.descendant above) := by
  rw [files, mem_filesIn_iff_meets htree hkeys hrules hstat,
    mem_filesIn_descendant_iff htree hkeys hrules hstat hdepth hne habove, ← descendant_append]
  constructor
  · rintro ⟨-, others, hpath, bytes, hmeets, hselects⟩
    have hall : ∀ name ∈ above ++ names, IsEntryName name := fun name hname =>
      (List.mem_append.mp hname).elim (habove.isEntryName htree name) (hnames name)
    obtain rfl : above ++ names = others :=
      descendant_inj _ hall (hmeets.isEntryName htree) (congrArg components hpath)
    have hget := hmeets.isEntry
    rw [← List.append_assoc] at hget
    exact ⟨names, ne_nil_of_file habove.isEntry hget, rfl, bytes, hmeets, hselects⟩
  · rintro ⟨others, -, hpath, bytes, hmeets, hselects⟩
    exact ⟨hstandard, above ++ others, hpath, bytes, hmeets, hpath ▸ hselects⟩

end Found

section Ignoring

variable (htree : fs.IsTree) (hkeys : fs.Unambiguous) (hrules : fs.HoldsNoIgnoreFiles)
  (hstat : fs.stat root = .ok (location, .directory)) (hne : above ≠ [])
  (habove : (ignoring globs).Meets fs root root location 0 above .directory)
include htree hkeys hrules hstat hne habove

/-- What a walk from the directory lists, with globs seeing what lies behind some of the names that
lead there. -/
theorem mem_filesIn_ignoring_iff {base : Path} (behind : List Name)
    (hseen : ∀ front, (∀ name ∈ front, IsEntryName name) → front ≠ [] →
      seenFrom base (root.descendant above) front = ofNames (behind ++ front)) :
    path ∈ (ignoring globs).filesIn fs base (root.descendant above) ↔
      ∃ names, path = (root.descendant above).descendant names ∧
        LeadsToFile fs (root.descendant above) (location ++ above) names ∧
          Spares globs behind names := by
  have hroot := text_ne_nil_of_stat hstat
  cases hstart : fs.stat (root.descendant above) with
  | error e =>
      rw [filesIn_eq_nil (ignoring globs) base hstart]
      refine iff_of_false List.not_mem_nil ?_
      rintro ⟨names, -, hleads, -⟩
      obtain ⟨bytes, hget⟩ := hleads.isFile
      have hholder := htree.get?_holder (ne_nil_of_file habove.isEntry hget) hget
      rw [List.append_assoc] at hholder
      have hopen := htree.isDirectory_of_descendant hstat hholder (by
        rw [descendant_append]
        exact hleads.opens)
      rw [isDirectory, hstart] at hopen
      cases hopen
  | ok found =>
      obtain ⟨start, held⟩ := found
      obtain ⟨rfl, rfl⟩ := htree.eq_of_stat_descendant hstat habove.isEntry (by simp) hstart
      rw [mem_filesIn_iff htree hkeys (fun _ => hrules) hstart, same_standardInput_descendant
        hroot (habove.isEntryName htree) hne]
      simp only [true_and]
      refine exists_congr fun names => and_congr_right fun _ => ?_
      constructor
      · rintro ⟨hopen, hqualifies⟩
        obtain ⟨hfile, hspares⟩ :=
          (qualifies_ignoring_iff hseen (hqualifies.isEntryName htree)).mp hqualifies
        exact ⟨⟨hfile, hopen⟩, hspares⟩
      · rintro ⟨hleads, hspares⟩
        exact ⟨hleads.opens, (qualifies_ignoring_iff hseen (hleads.isEntryName htree)).mpr
          ⟨hleads.isFile, hspares⟩⟩

/-- A walk from the directory lists the files that the globs spare as seen from there. -/
theorem mem_files_directory_iff :
    path ∈ (ignoring globs).files fs (root.descendant above) ↔
      ∃ names, path = (root.descendant above).descendant names ∧
        LeadsToFile fs (root.descendant above) (location ++ above) names ∧
          Spares globs [] names := by
  apply mem_filesIn_ignoring_iff htree hkeys hrules hstat hne habove []
  intro front hfront hnil
  have hdirectory := descendant_ne_nil (text_ne_nil_of_stat hstat) (habove.isEntryName htree)
  exact seenFrom_descendant [] hdirectory hfront hnil

/-- The walk from the root lists the files below the directory that the globs spare as seen from the
root. -/
theorem mem_files_root_iff (hstandard : root.same standardInput = false) (names : List Name)
    (hnames : ∀ name ∈ names, IsEntryName name) :
    (root.descendant above).descendant names ∈ (ignoring globs).files fs root ↔
      LeadsToFile fs (root.descendant above) (location ++ above) names ∧
        Spares globs above names := by
  rw [mem_files_iff_mem_filesIn htree hkeys (fun _ => hrules) hstat rfl hne hstandard habove hnames,
    mem_filesIn_ignoring_iff htree hkeys hrules hstat hne habove above]
  · constructor
    · rintro ⟨others, hpath, hleads, hspares⟩
      obtain rfl : names = others := descendant_inj _ hnames (hleads.isEntryName htree)
        (congrArg components hpath)
      exact ⟨hleads, hspares⟩
    · exact fun h => ⟨names, rfl, h⟩
  · intro front hfront hnil
    have hroot := text_ne_nil_of_stat hstat
    refine seenFrom_descendant above hroot (fun name hname => ?_) (by simp [hnil])
    exact (List.mem_append.mp hname).elim (habove.isEntryName htree name) (hfront name)

end Ignoring

end Walker

namespace FileTree

open TreeFold.Walker

variable {fs : FileSystem} {globs : Glob.Set} {root directory : Path} {names : List Name}
  {lines : Nat}

/-- The files that are inserted into the tree of a directory, with their line counts. -/
def insertions (walker : Walker) (fs : FileSystem) (directory : Path) : List (List Name × Nat) :=
  (walker.files fs directory).filterMap fun file =>
    (namesBelow? directory file).map (·, (fs.countLines file).toOption.getD 0)

/-- The names that a walk finds are texts, so that they are inserted as they are. -/
theorem ofWalk_eq (walker : Walker) (fs : FileSystem) (directory : Path) :
    ofWalk walker fs directory = ofFiles (insertions walker fs directory) := by
  rw [ofWalk, ← ofRawFiles_asWritten, insertions, List.map_filterMap]
  simp only [Option.map_map, Function.comp_def, asWritten]

theorem namesBelow?_descendant (hdirectory : directory.text ≠ [])
    (hnames : ∀ name ∈ names, IsEntryName name) (hne : names ≠ []) :
    namesBelow? directory (directory.descendant names) = some names := by
  rw [namesBelow?, relativeTo?_descendant hdirectory hnames hne, Option.map_some, ofNames,
    components_ofNames hnames, map_text_normal]

/-- The files inserted into the tree of a directory that the walk from a root meets. -/
theorem mem_insertions_iff (htree : fs.IsTree) (hkeys : fs.Unambiguous)
    (hrules : fs.HoldsNoIgnoreFiles) {location : Location} {above : List Name}
    (hstat : fs.stat root = .ok (location, .directory)) (hne : above ≠ [])
    (habove : (ignoring globs).Meets fs root root location 0 above .directory)
    (names : List Name) (lines : Nat) :
    (names, lines) ∈ insertions (ignoring globs) fs (root.descendant above) ↔
      LeadsToFile fs (root.descendant above) (location ++ above) names ∧ Spares globs [] names ∧
        lines =
          (fs.countLines ((root.descendant above).descendant names)).toOption.getD 0 := by
  have hdirectory := descendant_ne_nil (text_ne_nil_of_stat hstat) (habove.isEntryName htree)
  have hbelow : ∀ names, LeadsToFile fs (root.descendant above) (location ++ above) names →
      namesBelow? (root.descendant above) ((root.descendant above).descendant names) =
        some names := by
    intro names hleads
    obtain ⟨bytes, hget⟩ := hleads.isFile
    exact namesBelow?_descendant hdirectory (hleads.isEntryName htree)
      (ne_nil_of_file habove.isEntry hget)
  rw [insertions, List.mem_filterMap]
  simp only [mem_files_directory_iff htree hkeys hrules hstat hne habove]
  constructor
  · rintro ⟨file, ⟨others, rfl, hleads, hspares⟩, hmap⟩
    rw [hbelow others hleads] at hmap
    cases hmap
    exact ⟨hleads, hspares, rfl⟩
  · rintro ⟨hleads, hspares, rfl⟩
    exact ⟨_, ⟨names, rfl, hleads, hspares⟩, by rw [hbelow names hleads]; rfl⟩

/-- What is shown of a directory found below a root are the files below it that the globs spare as
seen from the directory. The walk from the root lists those that the globs spare as seen from the
root. So the two agree just where no file is judged differently from the two places. -/
theorem insertions_agree_iff (htree : fs.IsTree) (hkeys : fs.Unambiguous)
    (hrules : fs.HoldsNoIgnoreFiles) {wanted : List Name}
    (hfound : directory ∈ (ignoring globs).directoriesNamed fs root wanted) :
    ∃ location above, fs.stat root = .ok (location, .directory) ∧
      fs.get? (location ++ above) = some .directory ∧ directory = root.descendant above ∧
      ofWalk (ignoring globs) fs directory =
        ofFiles (insertions (ignoring globs) fs directory) ∧
      (∀ names lines, (names, lines) ∈ insertions (ignoring globs) fs directory ↔
        LeadsToFile fs directory (location ++ above) names ∧ Spares globs [] names ∧
          lines = (fs.countLines (directory.descendant names)).toOption.getD 0) ∧
      (∀ names, (∀ name ∈ names, IsEntryName name) →
        (directory.descendant names ∈ (ignoring globs).files fs root ↔
          LeadsToFile fs directory (location ++ above) names ∧ Spares globs above names)) ∧
      ((∀ names, (∀ name ∈ names, IsEntryName name) →
          ((∃ lines, (names, lines) ∈ insertions (ignoring globs) fs directory) ↔
            directory.descendant names ∈ (ignoring globs).files fs root)) ↔
        ∀ names, LeadsToFile fs directory (location ++ above) names →
          (Spares globs [] names ↔ Spares globs above names)) := by
  obtain ⟨location, hstat⟩ : ∃ location, fs.stat root = .ok (location, .directory) := by
    by_contra hnone
    rw [directoriesNamed_eq_nil fun location h => hnone ⟨location, h⟩] at hfound
    cases hfound
  obtain ⟨hstandard, above, last, -, rfl, habove⟩ :=
    (mem_directoriesNamed_iff htree hkeys (fun _ => hrules) hstat).mp hfound
  have hne := List.concat_ne_nil last above
  have hinserted := mem_insertions_iff htree hkeys hrules hstat hne habove
  have hlisted := mem_files_root_iff htree hkeys hrules hstat hne habove hstandard
  refine ⟨location, above ++ [last], hstat, habove.isEntry, rfl, ofWalk_eq _ _ _, hinserted,
    hlisted, ?_⟩
  constructor
  · intro hagree names hleads
    have hnames := hleads.isEntryName htree
    have hboth := hagree names hnames
    rw [hlisted names hnames] at hboth
    constructor
    · exact fun h => (hboth.mp ⟨_, (hinserted names _).mpr ⟨hleads, h, rfl⟩⟩).2
    · intro h
      obtain ⟨lines, hlines⟩ := hboth.mpr ⟨hleads, h⟩
      exact ((hinserted names lines).mp hlines).2.1
  · intro hjudged names hnames
    rw [hlisted names hnames]
    constructor
    · rintro ⟨lines, hlines⟩
      obtain ⟨hleads, hspares, -⟩ := (hinserted names lines).mp hlines
      exact ⟨hleads, (hjudged names hleads).mp hspares⟩
    · rintro ⟨hleads, hspares⟩
      exact ⟨_, (hinserted names _).mpr ⟨hleads, (hjudged names hleads).mpr hspares, rfl⟩⟩

/-- A directory two levels down with a file, and with another file in a directory below it. -/
def generatedBelow : FileSystem :=
  ⟨[([['s']], .directory), ([['s'], ['t']], .directory), ([['s'], ['t'], ['a']], .file [120]),
    ([['s'], ['t'], ['g']], .directory), ([['s'], ['t'], ['g'], ['b']], .file [121])], []⟩

/-- The lower directory is to be ignored below the root. The walk from there leaves it out, but its
file is shown in the tree of the directory above it. -/
theorem generatedBelow_insertions :
    generatedBelow.IsTree ∧ generatedBelow.Unambiguous ∧ generatedBelow.HoldsNoIgnoreFiles ∧
      ⟨['.', '/', 's', '/', 't']⟩ ∈
        (ignoring (literally ['s', '/', 't', '/', 'g'])).directoriesNamed
          generatedBelow ⟨['.']⟩ [['t']] ∧
      ([['a']], 1) ∈ insertions (ignoring (literally ['s', '/', 't', '/', 'g'])) generatedBelow
        ⟨['.', '/', 's', '/', 't']⟩ ∧
      ([['g'], ['b']], 1) ∈ insertions (ignoring (literally ['s', '/', 't', '/', 'g']))
        generatedBelow ⟨['.', '/', 's', '/', 't']⟩ ∧
      ⟨['.', '/', 's', '/', 't', '/', 'a']⟩ ∈
        (ignoring (literally ['s', '/', 't', '/', 'g'])).files generatedBelow ⟨['.']⟩ ∧
      ⟨['.', '/', 's', '/', 't', '/', 'g', '/', 'b']⟩ ∉
        (ignoring (literally ['s', '/', 't', '/', 'g'])).files generatedBelow ⟨['.']⟩ := by
  have htree : generatedBelow.IsTree := isTree_of_entries (by decide) (by decide)
  have hkeys : generatedBelow.Unambiguous := by decide
  have hrules : generatedBelow.HoldsNoIgnoreFiles :=
    holdsNoIgnoreFiles_of_entries (linkFree_of_entries (by simp [generatedBelow])) (by decide)
  have hfound : ⟨['.', '/', 's', '/', 't']⟩ ∈
      (ignoring (literally ['s', '/', 't', '/', 'g'])).directoriesNamed generatedBelow ⟨['.']⟩
        [['t']] := by
    rw [directoriesNamed, if_neg (by decide)]
    exact mem_sort.mpr (by decide +kernel)
  obtain ⟨location, above, hstat, hget, hdirectory, -, hinserted, hlisted, -⟩ :=
    insertions_agree_iff htree hkeys hrules hfound
  obtain rfl : [] = location := congrArg Prod.fst (Except.ok.inj hstat)
  obtain rfl : [['s'], ['t']] = above := descendant_inj ⟨['.']⟩ (by decide)
    (fun name hname => htree.isEntryName _ _ hget name hname) (congrArg components hdirectory)
  have hupper : LeadsToFile generatedBelow ⟨['.', '/', 's', '/', 't']⟩ [['s'], ['t']] [['a']] :=
    ⟨⟨[120], rfl⟩, by decide⟩
  have hlower : LeadsToFile generatedBelow ⟨['.', '/', 's', '/', 't']⟩ [['s'], ['t']]
      [['g'], ['b']] := ⟨⟨[121], rfl⟩, by decide⟩
  refine ⟨htree, hkeys, hrules, hfound, ?_, ?_, ?_, ?_⟩
  · exact (hinserted _ _).mpr ⟨hupper, by decide, by decide⟩
  · exact (hinserted _ _).mpr ⟨hlower, by decide, by decide⟩
  · exact (hlisted [['a']] (by decide)).mpr ⟨hupper, by decide⟩
  · intro hmem
    exact absurd ((hlisted [['g'], ['b']] (by decide)).mp hmem).2 (by decide)

end FileTree

end TreeFold
