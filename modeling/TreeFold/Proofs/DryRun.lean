import TreeFold.Proofs.Distribute.Containment
import TreeFold.Proofs.Flatten.ChunkSize
import TreeFold.Proofs.Flatten.Complete

/-!
# Dry runs

A dry run leaves the file system as it was, and its report is that of the real run when no write of
the real one fails.

For a distribution the two perform the same events. When files are flattened, a real run finds
names taken by its own outputs, and a dry run finds them given out. The two agree step by step
because an entry of the output directory is there later only if it was there at the start or was
given out. This needs an output directory that does not step up, since otherwise making it can
uncover files.
-/

namespace TreeFold

open Component TreeFold.Path FileSystem

namespace FileSystem

variable {fs later : FileSystem} {dir : Path} {given name : Name}

/-- Making a directory that does not step up leaves the places of its entries as they were. -/
theorem get?_makeParents_child (hfs : fs.LinkFree) (hdir : Component.parent ∉ dir.components)
    (hgiven : IsEntryName given) (name : Name) :
    (fs.makeParents (dir.child given)).fs.get? (dir.spelled fs.workingDir ++ [name]) =
      fs.get? (dir.spelled fs.workingDir ++ [name]) := by
  by_contra hnew
  rw [makeParents_child fs dir hgiven] at hnew
  obtain ⟨front, hfront, harrives⟩ := arrives_of_makeDirectories (.refl fs) hnew
  obtain ⟨hmoves, habsolute⟩ := moves_ofComponents dir
  obtain ⟨names, hnames, -⟩ := moves_eq_map_normal hdir
  rw [hmoves, hnames, List.prefix_iff_eq_take, ← List.map_take] at hfront
  rw [hfront, start, habsolute] at harrives
  -- What is made lies on the way to the directory, which is too short.
  have hlocation := harrives.eq_append fun more linked => hfs _ linked
  rw [spelled, start, hnames, foldl_followComponent_normal, List.append_assoc] at hlocation
  have hlength := congrArg List.length (List.append_cancel_left hlocation)
  simp only [List.length_append, List.length_singleton, List.length_take] at hlength
  omega

/-- Where the place of an entry is taken, the path of the entry names it as soon as it does in
another file system. -/
theorem IsTree.pathExists_child (h : fs.IsTree) (hfs : fs.LinkFree) (hlater : later.LinkFree)
    (hdir : Component.parent ∉ dir.components) (hname : IsEntryName name)
    (hexists : later.pathExists (dir.child name) = true)
    (hget : fs.get? (dir.spelled fs.workingDir ++ [name]) ≠ none) :
    fs.pathExists (dir.child name) = true := by
  obtain ⟨⟨location, entry⟩, hstat⟩ := exists_stat_of_pathExists hexists
  obtain ⟨-, -, hplace⟩ := stat_ok hlater hstat
  obtain ⟨hcheck, hshort, hleads⟩ := leads_of_place_child hlater hname hplace
  obtain ⟨held, hheld⟩ := Option.ne_none_iff_exists'.mp hget
  have hfits : fs.Leads dir := h.leads hdir hleads.fits (h.parent _ _ _ hheld)
  have hfound := place_child hfs hname hcheck hshort hfits
  rw [hheld] at hfound
  have hstat' : fs.stat (dir.child name) = .ok (dir.spelled fs.workingDir ++ [name], held) := by
    rw [stat_eq, hfound]
  exact pathExists_of_stat hstat'

/-- Making a directory that does not step up uncovers no file. -/
theorem IsTree.uncoversFile (h : fs.IsTree) (hfs : fs.LinkFree)
    (hdir : Component.parent ∉ dir.components) (hname : IsEntryName name) :
    fs.uncoversFile (dir.child name) = false := by
  by_contra huncovers
  rw [Bool.not_eq_false] at huncovers
  obtain ⟨held, made, hheld, hparents, -⟩ := overwrite_of_uncoversFile hfs hname huncovers []
  have hadds := addsDirectories_of_makeParents hparents
  rw [FileSystem.uncoversFile, hparents, Bool.and_eq_true, Bool.and_eq_true] at huncovers
  obtain ⟨⟨hfree, -⟩, hfile⟩ := huncovers
  obtain ⟨location, bytes, hstat⟩ := (isFile_iff made _).mp hfile
  rw [spelled_child_name _ _ hname] at hheld
  have hexists := h.pathExists_child hfs (hadds.linkFree hfs) hdir hname
    (pathExists_of_stat hstat) (by rw [hheld]; simp)
  rw [hexists] at hfree
  cases hfree

end FileSystem

namespace NameAllocator

variable {names : NameAllocator} {fs later : FileSystem} {name : Name}

/-- A longer search finds what a shorter one found. -/
theorem firstFree?_mono {tries more n : Nat} {path : Path} (htries : tries ≤ more)
    (h : names.firstFree? fs name tries n = some path) :
    names.firstFree? fs name more n = some path := by
  induction tries generalizing more n with
  | zero => cases h
  | succ tries ih =>
      obtain ⟨more, rfl⟩ : ∃ m, more = m + 1 := ⟨more - 1, by omega⟩
      rw [firstFree?] at h ⊢
      split at h
      · rename_i htaken
        rw [if_pos htaken]
        exact ih (Nat.le_of_succ_le_succ htries) h
      · rename_i hfree
        rw [if_neg hfree]
        exact h

theorem firstFree?_congr
    (htaken : ∀ n, names.isTaken later (names.candidate name n) =
      names.isTaken fs (names.candidate name n)) (tries n : Nat) :
    names.firstFree? later name tries n = names.firstFree? fs name tries n := by
  induction tries generalizing n with
  | zero => rfl
  | succ tries ih => rw [firstFree?, firstFree?, htaken, ih]

/-- Searches that find something find the same. -/
theorem firstFree?_eq {tries more n : Nat} (htries : names.firstFree? fs name tries n ≠ none)
    (hmore : names.firstFree? fs name more n ≠ none) :
    names.firstFree? fs name tries n = names.firstFree? fs name more n := by
  obtain ⟨path, hpath⟩ := Option.ne_none_iff_exists'.mp htries
  obtain ⟨other, hother⟩ := Option.ne_none_iff_exists'.mp hmore
  rcases Nat.le_total tries more with hle | hle
  · rw [firstFree?_mono hle hpath, hpath]
  · rw [firstFree?_mono hle hother, hother]

/-- Where the same names are taken, the same path is given out, however many entries there are. -/
theorem choose?_congr (hname : IsEntryName name)
    (htaken : ∀ given, IsEntryName given → names.isTaken later (names.directory.child given) =
      names.isTaken fs (names.directory.child given)) :
    names.choose? later name = names.choose? fs name := by
  have hcandidates : ∀ n, names.isTaken later (names.candidate name n) =
      names.isTaken fs (names.candidate name n) :=
    fun n => htaken _ (FileName.isEntryName_numbered hname n)
  rw [choose?, choose?, htaken name hname]
  split
  · rfl
  · cases names.policy with
    | skipExisting => rfl
    | renameWithSuffix =>
        have hhere : names.firstFree? fs name (names.claimed.length + fs.entries.length + 1) 1 ≠
            none := firstFree?_isSome
        have hthere : names.firstFree? later name
            (names.claimed.length + later.entries.length + 1) 1 ≠ none :=
          firstFree?_isSome
        rw [firstFree?_congr hcandidates] at hthere ⊢
        exact firstFree?_eq hthere hhere

end NameAllocator

namespace Flatten

variable {options : Options} {fs : FileSystem} {run dry : Run} {source : Path}
  {rest sources : List Path}

/-- The dry run stands where the real one does: the reports and the names given out are the same,
and an entry of the output directory is in the real run's file system only if it was there at the
start or was given out. -/
structure Mirrors (options : Options) (fs : FileSystem) (dry run : Run) (rest : List Path) :
    Prop where
  keepsFiles : KeepsFiles options fs run rest
  entry : ∀ name, IsEntryName name →
    run.batch.fs.get? (options.outDir.spelled fs.workingDir ++ [name]) =
        fs.get? (options.outDir.spelled fs.workingDir ++ [name]) ∨
      (options.outDir.child name).components ∈ run.names.claimed
  unchanged : dry.batch.fs = fs
  report : dry.batch.report = run.batch.report
  names : dry.names = run.names

section Tree

variable (hfs : fs.LinkFree) (htree : fs.IsTree)
  (hdir : Component.parent ∉ options.outDir.components)
include hfs htree hdir

/-- In a tree the first write uncovers no file when the output directory does not step up. -/
theorem not_firstUncovers (sources : List Path) : ¬FirstUncovers options fs sources := by
  rintro ⟨name, hname, huncovers⟩
  rw [htree.uncoversFile hfs hdir (isEntryName_of_findSome? hname)] at huncovers
  cases huncovers

namespace Mirrors

/-- A name is taken in the real run when it is in the dry one. -/
theorem isTaken (h : Mirrors options fs dry run rest) {name : Name} (hname : IsEntryName name) :
    run.names.isTaken run.batch.fs (run.names.directory.child name) =
      run.names.isTaken fs (run.names.directory.child name) := by
  have hkeeps := h.keepsFiles.2
  rw [hkeeps.directory, Bool.eq_iff_iff]
  simp only [NameAllocator.isTaken, Bool.or_eq_true, List.contains_iff_mem]
  constructor
  · rintro (hclaimed | hexists)
    · exact Or.inl hclaimed
    · rcases h.entry name hname with hsame | hclaimed
      · right
        apply htree.pathExists_child hfs hkeeps.linkFree hdir hname hexists
        obtain ⟨⟨location, entry⟩, hstat⟩ := exists_stat_of_pathExists hexists
        obtain ⟨hlocation, hget, -⟩ := stat_ok hkeeps.linkFree hstat
        rw [hlocation, spelled_child_name _ _ hname, hkeeps.keeps.workingDir] at hget
        rw [← hsame, hget]
        simp
      · exact Or.inl hclaimed
  · rintro (hclaimed | hexists)
    · exact Or.inl hclaimed
    · obtain ⟨found, hstat⟩ := exists_stat_of_pathExists hexists
      exact Or.inr (pathExists_of_stat (stat_mono hfs hkeeps.keeps hstat))

/-- The dry run gives out the path that the real one does. -/
theorem choose? (h : Mirrors options fs dry run rest) {name : Name} (hname : IsEntryName name) :
    run.names.choose? fs name = run.names.choose? run.batch.fs name :=
  (NameAllocator.choose?_congr hname
    fun _ hgiven => h.isTaken hfs htree hdir hgiven).symm

omit hfs htree in
/-- After a write an entry of the output directory is as it was, or it was given out. -/
theorem entry_of_overwrite (h : Mirrors options fs dry run rest) {given : Name}
    (hgiven : IsEntryName given) {text : Text} {after : FileSystem}
    (hwrite : run.batch.fs.overwrite (options.outDir.child given) text = ⟨none, after⟩)
    {name : Name} (hname : IsEntryName name) :
    after.get? (options.outDir.spelled fs.workingDir ++ [name]) =
        fs.get? (options.outDir.spelled fs.workingDir ++ [name]) ∨
      (options.outDir.child name).components ∈
        (run.names.claim (options.outDir.child given)).claimed := by
  have hkeeps := h.keepsFiles.2
  by_cases hsame : name = given
  · rw [hsame]
    exact Or.inr List.mem_cons_self
  · obtain ⟨made, hparents, -, hnil, -, rfl⟩ := overwrite_none hkeeps.linkFree hwrite
    have hmade := get?_makeParents_child hkeeps.linkFree hdir hgiven name
    rw [hparents, hkeeps.keeps.workingDir] at hmade
    rw [hkeeps.keeps.workingDir, spelled_child_name _ _ hgiven] at hnil ⊢
    rw [get?_put_of_ne made hnil _ (by simpa using hsame), hmade]
    exact (h.entry name hname).imp id (List.mem_cons_of_mem _)

/-- A source whose write does not fail leaves the dry run where the real one is. -/
theorem step (hreal : options.dryRun = false) (h : Mirrors options fs dry run (source :: rest))
    (hok : (writeRendered options run source
      (render options fs source)).batch.report.WritesSucceed) :
    Mirrors options fs
      (writeRendered { options with dryRun := true } dry source (render options fs source))
      (writeRendered options run source (render options fs source)) rest := by
  obtain ⟨⟨dryFs, dryReport⟩, dryNames⟩ := dry
  obtain ⟨hkeepsFiles, hentry, rfl, rfl, rfl⟩ := id h
  have hnext := hkeepsFiles.step hreal
  obtain ⟨text, htext⟩ := exists_render options (hkeepsFiles.1 source List.mem_cons_self)
  have hstep := step_writeRendered hreal run source (render options dryFs source)
  rw [htext] at hstep hok hnext ⊢
  generalize writeRendered options run source (.ok text) = next at hstep hok hnext ⊢
  cases hstep with
  | unnamed text hname =>
      simp only [writeRendered, hname]
      exact ⟨hnext, hentry, rfl, rfl, rfl⟩
  | skipped text name hname hchoose =>
      rw [← h.choose? hfs htree hdir (isEntryName_of_fileName? hname)] at hchoose
      simp only [writeRendered, hname, NameAllocator.allocate, hchoose]
      exact ⟨hnext, hentry, rfl, rfl, rfl⟩
  | failed text name destination e after hname hchoose hwrite =>
      exact absurd (List.mem_append_right _ List.mem_cons_self) (hok destination e)
  | written text name destination after hname hchoose hwrite =>
      obtain ⟨given, hgiven, hpath, -⟩ :=
        NameAllocator.choose?_eq_some (isEntryName_of_fileName? hname) hchoose
      rw [hkeepsFiles.2.directory] at hpath
      rw [← h.choose? hfs htree hdir (isEntryName_of_fileName? hname)] at hchoose
      simp only [writeRendered, hname, NameAllocator.allocate, hchoose, Batch.write, if_true]
      subst hpath
      exact ⟨hnext, fun _ => h.entry_of_overwrite hdir hgiven hwrite, rfl, rfl, rfl⟩

/-- Sources whose writes do not fail leave the dry run with the report of the real one. -/
theorem report_oneByOne (hreal : options.dryRun = false) (h : Mirrors options fs dry run sources)
    (hok : (oneByOne options fs run sources).batch.report.WritesSucceed) :
    (oneByOne { options with dryRun := true } fs dry sources).batch.report =
      (oneByOne options fs run sources).batch.report := by
  induction sources generalizing dry run with
  | nil => exact h.report
  | cons source rest ih =>
      rw [oneByOne_cons] at hok ⊢
      have hnext := writesSucceed_of_oneByOne hreal hok
      exact ih (h.step hfs htree hdir hreal hnext) hok

end Mirrors

/-- A dry run of flattening predicts the real one. -/
theorem files_predicts (hreal : options.dryRun = false)
    (hsources : ∀ source ∈ sources, fs.isFile source = true) :
    Batch.Predicts fs (files { options with dryRun := true } fs sources)
      (files options fs sources) := by
  have hsafe := not_firstUncovers hfs htree hdir sources
  have hstart : Mirrors options fs (begin options fs) (begin options fs) sources :=
    ⟨⟨hsources, keeps_begin hfs hsafe⟩, fun _ _ => Or.inl rfl, rfl, rfl, rfl⟩
  have hdry : files { options with dryRun := true } fs sources =
      (oneByOne { options with dryRun := true } fs (begin options fs) sources).batch :=
    inChunks_dry rfl chunkSize fs sources
  rw [hdry, files, inChunks_eq_oneByOne hfs hreal hsources hsafe]
  constructor
  · exact fs_oneByOne_dry rfl fs _ sources
  · exact hstart.report_oneByOne hfs htree hdir hreal

end Tree

end Flatten

/-- A dry run of distributing predicts the real one, whatever the file system holds. -/
theorem Distribute.files_predicts (options : Distribute.Options) (rules : List AliasRule)
    (fs : FileSystem) (blobs : List Path) :
    Batch.Predicts fs (Distribute.files { options with dryRun := true } rules fs blobs)
      (Distribute.files { options with dryRun := false } rules fs blobs) := by
  constructor
  · rw [files_eq]
    exact Batch.fs_performAll_dry _ _
  · rw [files_eq, files_eq]
    exact Batch.report_performAll_dry rfl

/-- Dry runs predict real runs: of flattening files in a tree without links into a directory that
does not step up, and of distributing any blobs in any file system. -/
theorem dryRun_predicts {flat : Flatten.Options} {tree : FileSystem} {sources : List Path}
    (hlinks : tree.LinkFree) (htree : tree.IsTree)
    (hdir : Component.parent ∉ flat.outDir.components)
    (hsources : ∀ source ∈ sources, tree.isFile source = true) (spread : Distribute.Options)
    (rules : List AliasRule) (fs : FileSystem) (blobs : List Path) :
    Batch.Predicts tree (Flatten.files { flat with dryRun := true } tree sources)
        (Flatten.files { flat with dryRun := false } tree sources) ∧
      Batch.Predicts fs (Distribute.files { spread with dryRun := true } rules fs blobs)
        (Distribute.files { spread with dryRun := false } rules fs blobs) := by
  have hreal : Component.parent ∉
      ({ flat with dryRun := false } : Flatten.Options).outDir.components := hdir
  constructor
  · exact Flatten.files_predicts hlinks htree hreal rfl hsources
  · exact Distribute.files_predicts spread rules fs blobs

/-- The dry runs of flattening two files of one name, and of distributing a blob with an unsafe
segment behind a link, report what the real ones do. -/
theorem twoFiles_dryRun_predicts :
    (Flatten.files { Flatten.numberedInto ⟨['o']⟩ with dryRun := true } Flatten.twoFiles
        Flatten.lowerThenUpper).report =
      (Flatten.files { Flatten.numberedInto ⟨['o']⟩ with dryRun := false } Flatten.twoFiles
        Flatten.lowerThenUpper).report ∧
      (Distribute.files { Distribute.behindLink with dryRun := true } [⟨['@', '/'], ['/']⟩]
        Distribute.besideLink [⟨['b', '.', 'c']⟩]).report =
        (Distribute.files { Distribute.behindLink with dryRun := false } [⟨['@', '/'], ['/']⟩]
          Distribute.besideLink [⟨['b', '.', 'c']⟩]).report := by
  have hlinks : Flatten.twoFiles.LinkFree := linkFree_of_entries (by simp [Flatten.twoFiles])
  have htree : Flatten.twoFiles.IsTree := isTree_of_entries (by decide) (by decide)
  have hdir : Component.parent ∉ (Flatten.numberedInto ⟨['o']⟩).outDir.components := by decide
  have hsources : ∀ source ∈ Flatten.lowerThenUpper, Flatten.twoFiles.isFile source = true := by
    decide
  obtain ⟨hflat, hspread⟩ := dryRun_predicts hlinks htree hdir hsources Distribute.behindLink
    [⟨['@', '/'], ['/']⟩] Distribute.besideLink [⟨['b', '.', 'c']⟩]
  constructor
  · apply hflat.report
    have hfailures : (Flatten.files { Flatten.numberedInto ⟨['o']⟩ with dryRun := false }
        Flatten.twoFiles Flatten.lowerThenUpper).report.failures = [] := by decide +kernel
    exact Report.writesSucceed_of_failures hfailures (by simp)
  · apply hspread.report
    have hfailures : (Distribute.files { Distribute.behindLink with dryRun := false }
        [⟨['@', '/'], ['/']⟩] Distribute.besideLink [⟨['b', '.', 'c']⟩]).report.failures =
        [.escaping ⟨['b', '.', 'c']⟩ ['/', 'a', '.', 'b']] := by decide +kernel
    exact Report.writesSucceed_of_failures hfailures (by simp [FileFailure.kind])

end TreeFold
