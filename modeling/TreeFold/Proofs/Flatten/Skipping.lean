import TreeFold.Proofs.Flatten.Chunks

/-!
# Flattening again while taken names are skipped

When no source has failed, each of them has left its name taken: it was written under its name, or
skipped because an earlier source or an earlier run had taken it. Entries are only added, so a
second run finds every name on the disk. It skips every source and changes nothing.
-/

namespace TreeFold.Flatten

open Component TreeFold.Path FileSystem

theorem failures_recordFailure_ne_nil (report : Report) (failure : FileFailure) :
    (report.recordFailure failure).failures ≠ [] :=
  List.concat_ne_nil failure report.failures

variable {options : Options} {fs : FileSystem} {run next : Run} {source : Path}
  {before rest sources : List Path} {done : List Output} {rendered : Except FileFailure Text}

/-- The output directory has an entry of the name. -/
def HasEntry (options : Options) (fs : FileSystem) (name : Name) : Prop :=
  fs.pathExists (options.outDir.child name) = true

/-- The source has a name, and the output directory has an entry of that name. -/
def IsStocked (options : Options) (fs : FileSystem) (source : Path) : Prop :=
  ∃ name, source.fileName? = some name ∧ HasEntry options fs name

theorem IsStocked.persists {later : FileSystem} (h : IsStocked options fs source)
    (hlater : fs.Persists later) : IsStocked options later source := by
  obtain ⟨name, hname, hentry⟩ := h
  exact ⟨name, hname, pathExists_persists hlater hentry⟩

section First

/-- The paths given out so far lead to entries, and the sources so far are stocked. -/
structure Stocks (options : Options) (fs : FileSystem) (run : Run) (before : List Path) :
    Prop where
  tracked : ∃ done, Tracks options fs run done
  claimed : ∀ parts ∈ run.names.claimed, ∃ name, IsEntryName name ∧
    parts = (options.outDir.child name).components ∧ HasEntry options run.batch.fs name
  stocked : ∀ source ∈ before, IsStocked options run.batch.fs source

/-- A run without a failure had none before. -/
theorem Step.failures_eq_nil (hstep : Step options run source rendered next)
    (h : next.batch.report.failures = []) : run.batch.report.failures = [] := by
  cases hstep with
  | skipped text name hname hchoose => exact h
  | written text name destination after hname hchoose hwrite => exact h
  | _ => exact absurd h (failures_recordFailure_ne_nil _ _)

/-- When names are skipped, the path for a name is its own. -/
theorem Tracks.choose?_skipping (h : Tracks options fs run done)
    (hpolicy : options.collision = .skipExisting) {name : Name} {path : Path}
    (hchoose : run.names.choose? run.batch.fs name = some path) :
    path = options.outDir.child name := by
  rw [← h.directory]
  obtain ⟨-, hown⟩ | ⟨-, ⟨-, hnone⟩ | ⟨hrename, -⟩⟩ :=
    NameAllocator.choose?_cases run.names run.batch.fs name
  · exact Option.some.inj (hchoose.symm.trans hown)
  · rw [hnone] at hchoose
    cases hchoose
  · rw [h.policy, hpolicy] at hrename
    cases hrename

/-- A name is skipped when it has an entry, as all that was given out has. -/
theorem Stocks.hasEntry (h : Stocks options fs run before) {name : Name}
    (hname : IsEntryName name) (hchoose : run.names.choose? run.batch.fs name = none) :
    HasEntry options run.batch.fs name := by
  obtain ⟨done, htracks⟩ := h.tracked
  obtain ⟨-, hown⟩ | ⟨htaken, -⟩ := NameAllocator.choose?_cases run.names run.batch.fs name
  · rw [hown] at hchoose
    cases hchoose
  · rw [htracks.directory] at htaken
    rcases Bool.or_eq_true_iff.mp htaken with hclaimed | hexists
    · obtain ⟨given, hgiven, hparts, hentry⟩ := h.claimed _ (List.contains_iff_mem.mp hclaimed)
      rwa [components_child_inj hname hgiven hparts]
    · exact hexists

/-- A source that does not fail is stocked afterwards, and so are those before it. -/
theorem Stocks.step (h : Stocks options fs run before)
    (hpolicy : options.collision = .skipExisting)
    (hstep : Step options run source rendered next) (hclean : next.batch.report.failures = []) :
    Stocks options fs next (before ++ [source]) := by
  obtain ⟨done, htracks⟩ := h.tracked
  cases hstep with
  | skipped text name hname hchoose =>
      refine ⟨⟨done, htracks.skipped hchoose _⟩, h.claimed, ?_⟩
      intro s hs
      rcases List.mem_append.mp hs with hs | hs
      · exact h.stocked s hs
      · rw [List.mem_singleton.mp hs]
        exact ⟨name, hname, h.hasEntry (isEntryName_of_fileName? hname) hchoose⟩
  | written text name destination after hname hchoose hwrite =>
      have hentryName := isEntryName_of_fileName? hname
      obtain rfl := htracks.choose?_skipping hpolicy hchoose
      have hnext : Tracks options fs _ (done ++ [⟨source, options.outDir.child name, text⟩]) :=
        htracks.output hentryName hchoose hwrite
      have hkept : run.batch.fs.Persists after := by
        have hretains := retains_attempt htracks.wrote.linkFree [(options.outDir.child name, text)]
        rw [attempt_cons, hwrite] at hretains
        exact hretains.persists htracks.wrote.linkFree
      have hentry : HasEntry options after name :=
        pathExists_of_stat (hnext.stat_output (List.mem_append_right _ List.mem_cons_self))
      refine ⟨⟨_, hnext⟩, ?_, ?_⟩
      · intro parts hparts
        rcases List.mem_cons.mp hparts with rfl | hparts
        · exact ⟨name, hentryName, rfl, hentry⟩
        · obtain ⟨given, hgiven, hpath, hexists⟩ := h.claimed parts hparts
          exact ⟨given, hgiven, hpath, pathExists_persists hkept hexists⟩
      · intro s hs
        rcases List.mem_append.mp hs with hs | hs
        · exact (h.stocked s hs).persists hkept
        · rw [List.mem_singleton.mp hs]
          exact ⟨name, hname, hentry⟩
  | _ => exact absurd hclean (failures_recordFailure_ne_nil _ _)

/-- Unless a source has failed, the sources before the rest are stocked. -/
def StocksUnlessFailed (options : Options) (fs : FileSystem) (sources : List Path) (run : Run)
    (rest : List Path) : Prop :=
  run.batch.report.failures = [] → ∃ before, before ++ rest = sources ∧
    Stocks options fs run before

theorem StocksUnlessFailed.start (hfs : fs.LinkFree) :
    StocksUnlessFailed options fs sources (begin options fs) sources :=
  fun _ => ⟨[], rfl, ⟨[], .start hfs⟩, by simp [begin, NameAllocator.new], by simp⟩

/-- The step keeps the invariant, at whatever earlier time the source was read. -/
theorem StocksUnlessFailed.step (hreal : options.dryRun = false)
    (hpolicy : options.collision = .skipExisting) (early : FileSystem)
    (h : StocksUnlessFailed options fs sources run (source :: rest)) :
    StocksUnlessFailed options fs sources
      (writeRendered options run source (render options early source)) rest := by
  intro hnext
  have hstep := step_writeRendered hreal run source (render options early source)
  obtain ⟨before, hbefore, hstocks⟩ := h (hstep.failures_eq_nil hnext)
  exact ⟨before ++ [source], by simpa using hbefore, hstocks.step hpolicy hstep hnext⟩

theorem stocksUnlessFailed_chunks (hfs : fs.LinkFree) (hreal : options.dryRun = false)
    (hpolicy : options.collision = .skipExisting) (size : Nat) (sources : List Path) :
    StocksUnlessFailed options fs sources
      ((chunks size sources.length sources).foldl (writeChunk options) (begin options fs)) [] :=
  chunks_invariant
    (fun run _ _ => oneByOne_invariant
      (fun _ _ _ => StocksUnlessFailed.step hreal hpolicy run.batch.fs))
    (Nat.le_refl sources.length) (.start hfs)

/-- After a real run without a failure every source is stocked. -/
theorem stocks_inChunks (hfs : fs.LinkFree) (hreal : options.dryRun = false)
    (hpolicy : options.collision = .skipExisting) (size : Nat)
    (hclean : (inChunks options size fs sources).report.failures = []) :
    fs.Retains (inChunks options size fs sources).fs ∧
      ∀ source ∈ sources, IsStocked options (inChunks options size fs sources).fs source := by
  obtain ⟨before, hbefore, hstocks⟩ :=
    stocksUnlessFailed_chunks hfs hreal hpolicy (size - 1) sources hclean
  rw [List.append_nil] at hbefore
  obtain ⟨done, htracks⟩ := hstocks.tracked
  exact ⟨htracks.wrote.retains, hbefore ▸ hstocks.stocked⟩

end First

section Second

/-- The report of a run that skips every source. -/
def skippingReport (options : Options) (sources : List Path) : Report where
  processed := sources.length
  written := 0
  skipped := sources.length
  outputs := []
  failures := []
  warnings := sources.map fun source => skipMessage options source (source.fileName?.getD [])

/-- The run after stocked sources were skipped. -/
def skippingRun (options : Options) (fs : FileSystem) (sources : List Path) : Run :=
  ⟨⟨fs, skippingReport options sources⟩, .new options.outDir options.collision⟩

/-- A stocked source is skipped. -/
theorem writeRendered_of_isStocked (hpolicy : options.collision = .skipExisting)
    (hfile : fs.isFile source = true) (hstocked : IsStocked options fs source)
    (before : List Path) :
    writeRendered options (skippingRun options fs before) source (render options fs source) =
      skippingRun options fs (before ++ [source]) := by
  obtain ⟨text, htext⟩ := exists_render options hfile
  obtain ⟨name, hname, hentry⟩ := hstocked
  have hentry : fs.pathExists (options.outDir.child name) = true := hentry
  simp [writeRendered, skippingRun, skippingReport, htext, hname, NameAllocator.allocate,
    NameAllocator.choose?, NameAllocator.isTaken, NameAllocator.new, hpolicy, hentry,
    Report.recordInput, Report.recordSkip]

/-- The run has skipped every source before the rest. -/
def HasSkipped (options : Options) (fs : FileSystem) (sources : List Path) (run : Run)
    (rest : List Path) : Prop :=
  ∃ before, before ++ rest = sources ∧ run = skippingRun options fs before

theorem HasSkipped.start : HasSkipped options fs sources (begin options fs) sources :=
  ⟨[], rfl, rfl⟩

theorem HasSkipped.fs_eq (h : HasSkipped options fs sources run rest) : run.batch.fs = fs := by
  obtain ⟨before, -, rfl⟩ := h
  rfl

theorem HasSkipped.step (hpolicy : options.collision = .skipExisting)
    (hsources : ∀ source ∈ sources, fs.isFile source = true)
    (hstocked : ∀ source ∈ sources, IsStocked options fs source)
    (h : HasSkipped options fs sources run (source :: rest)) :
    HasSkipped options fs sources
      (writeRendered options run source (render options fs source)) rest := by
  obtain ⟨before, hbefore, rfl⟩ := h
  have hmem : source ∈ sources := by simp [← hbefore]
  exact ⟨before ++ [source], by simpa using hbefore,
    writeRendered_of_isStocked hpolicy (hsources source hmem) (hstocked source hmem) before⟩

/-- A chunk is read from the file system at its start, which no skip has changed. -/
theorem HasSkipped.oneByOne (hpolicy : options.collision = .skipExisting)
    (hsources : ∀ source ∈ sources, fs.isFile source = true)
    (hstocked : ∀ source ∈ sources, IsStocked options fs source) {front : List Path}
    (h : HasSkipped options fs sources run (front ++ rest)) :
    HasSkipped options fs sources (oneByOne options run.batch.fs run front) rest := by
  rw [h.fs_eq]
  exact oneByOne_invariant (fun _ _ _ => HasSkipped.step hpolicy hsources hstocked) h

/-- A run over stocked sources skips every one of them. -/
theorem inChunks_of_isStocked (hpolicy : options.collision = .skipExisting)
    (hsources : ∀ source ∈ sources, fs.isFile source = true)
    (hstocked : ∀ source ∈ sources, IsStocked options fs source) (size : Nat) :
    inChunks options size fs sources = ⟨fs, skippingReport options sources⟩ := by
  obtain ⟨before, hbefore, hrun⟩ := chunks_invariant
    (fun _ _ _ => HasSkipped.oneByOne hpolicy hsources hstocked)
    (Nat.le_refl sources.length) HasSkipped.start
  rw [List.append_nil] at hbefore
  exact hbefore ▸ congrArg Run.batch hrun

end Second

/-- After a real run that skips taken names and has no failure, a second run skips every source: it
writes nothing, has no failure, and leaves the file system as it is. -/
theorem files_skipping_again (hfs : fs.LinkFree) (hreal : options.dryRun = false)
    (hpolicy : options.collision = .skipExisting)
    (hsources : ∀ source ∈ sources, fs.isFile source = true)
    (hclean : (files options fs sources).report.failures = []) :
    files options (files options fs sources).fs sources =
      ⟨(files options fs sources).fs, skippingReport options sources⟩ := by
  obtain ⟨hretains, hstocked⟩ := stocks_inChunks hfs hreal hpolicy chunkSize hclean
  have hkept : ∀ source ∈ sources, (files options fs sources).fs.isFile source = true :=
    fun source hsource => isFile_retains hfs hretains (hsources source hsource)
  exact inChunks_of_isStocked hpolicy hkept hstocked chunkSize

/-- Two files of one name, and a file whose name is taken in the output directory `o`. -/
def crowded : FileSystem :=
  ⟨[([['s']], .directory), ([['s'], ['a']], .file [111]), ([['s'], ['t']], .directory),
    ([['s'], ['t'], ['a']], .file [110]), ([['s'], ['b']], .file [112]), ([['o']], .directory),
    ([['o'], ['b']], .file [])], []⟩

/-- Flattening the files into `o`, below headers that name them from `s`. -/
def skippingInto : Options :=
  ⟨⟨['o']⟩, ⟨['s']⟩, .skipExisting, false, false⟩

/-- One file is written and two are skipped, and then all three are skipped. -/
theorem crowded_skipping_again :
    let sources : List Path := [⟨"s/a".toList⟩, ⟨"s/t/a".toList⟩, ⟨"s/b".toList⟩]
    let first := files skippingInto crowded sources
    crowded.LinkFree ∧ (∀ source ∈ sources, crowded.isFile source = true) ∧
      first.report.failures = [] ∧ first.report.outputs = [⟨"o/a".toList⟩] ∧
      files skippingInto first.fs sources = ⟨first.fs, skippingReport skippingInto sources⟩ := by
  intro sources first
  have hfs : crowded.LinkFree := linkFree_of_entries (by simp [crowded])
  have hsources : ∀ source ∈ sources, crowded.isFile source = true := by decide
  have hclean : first.report.failures = [] := by decide +kernel
  exact ⟨hfs, hsources, hclean, by decide +kernel,
    files_skipping_again hfs rfl rfl hsources hclean⟩

end TreeFold.Flatten
