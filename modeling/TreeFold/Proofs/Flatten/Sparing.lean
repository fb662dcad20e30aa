import TreeFold.Proofs.Flatten.Chunks

/-!
# Runs that spare what exists

A path is given out only when it names nothing. The text then goes where nothing was, except when
the first write makes a directory that uncovers a file. Apart from that, every entry stays, every
source reads the same until the end, and chunks make no difference.
-/

namespace TreeFold

open Component TreeFold.Path FileSystem

namespace FileSystem

/-- The directory of an entry is settled. -/
theorem settled_of_pathExists {fs : FileSystem} (hfs : fs.LinkFree) {dir : Path} {name : Name}
    (hname : IsEntryName name) (h : fs.pathExists (dir.child name) = true) : fs.Settled dir := by
  obtain ⟨⟨location, entry⟩, hstat⟩ := exists_stat_of_pathExists h
  obtain ⟨-, -, hplace⟩ := stat_ok hfs hstat
  obtain ⟨-, -, hleads⟩ := leads_of_place_child hfs hname hplace
  exact settled_of_leads hfs hleads

end FileSystem

namespace NameAllocator

/-- The first path given out in a directory that is not settled is that of the name itself. -/
theorem choose?_of_not_settled {names : NameAllocator} {fs : FileSystem} (hfs : fs.LinkFree)
    (hclaimed : names.claimed = []) (hsettled : ¬fs.Settled names.directory) {name : Name}
    (hname : IsEntryName name) :
    names.choose? fs name = some (names.directory.child name) := by
  have hfree : names.isTaken fs (names.directory.child name) = false := by
    rw [not_isTaken]
    refine ⟨by simp [hclaimed], ?_⟩
    rw [← Bool.not_eq_true]
    intro hexists
    exact hsettled (settled_of_pathExists hfs hname hexists)
  simp [choose?, hfree]

end NameAllocator

namespace Flatten

variable {options : Options} {fs : FileSystem} {run next : Run} {source : Path}
  {rest sources : List Path} {done : List Output}

/-- The first write of a run would uncover a file: the path of the first name names nothing, but
it names a file once the output directory is made. -/
def FirstUncovers (options : Options) (fs : FileSystem) (sources : List Path) : Prop :=
  ∃ name, sources.findSome? Path.fileName? = some name ∧
    fs.uncoversFile (options.outDir.child name) = true

/-- The output directory is settled, or no path is given out yet and the next one is safe. -/
def Ready (options : Options) (run : Run) (rest : List Path) : Prop :=
  run.batch.fs.Settled options.outDir ∨
    run.names.claimed = [] ∧ ¬FirstUncovers options run.batch.fs rest

/-- No path that is given out uncovers a file. -/
theorem Ready.safe (h : Ready options run (source :: rest)) (hfs : run.batch.fs.LinkFree)
    (hdirectory : run.names.directory = options.outDir) {name : Name}
    (hname : source.fileName? = some name) {destination : Path}
    (hchoose : run.names.choose? run.batch.fs name = some destination) :
    run.batch.fs.uncoversFile destination = false := by
  have hentry := isEntryName_of_fileName? hname
  by_cases hsettled : run.batch.fs.Settled options.outDir
  · obtain ⟨given, hgiven, rfl, -⟩ := NameAllocator.choose?_eq_some hentry hchoose
    rw [hdirectory]
    exact hsettled.uncoversFile hgiven
  · obtain ⟨hclaimed, hfirst⟩ := h.resolve_left hsettled
    rw [← hdirectory] at hsettled
    rw [NameAllocator.choose?_of_not_settled hfs hclaimed hsettled hentry] at hchoose
    rw [← Option.some.inj hchoose, hdirectory, Bool.eq_false_iff]
    intro huncovers
    exact hfirst ⟨name, by simp [hname], huncovers⟩

/-- A source without a name leaves the next one as safe as it was. -/
theorem Ready.unnamed (h : Ready options run (source :: rest)) (hname : source.fileName? = none)
    (report : Report) : Ready options ⟨⟨run.batch.fs, report⟩, run.names⟩ rest := by
  rcases h with hsettled | ⟨hclaimed, hfirst⟩
  · exact Or.inl hsettled
  · rw [FirstUncovers, List.findSome?_cons, hname] at hfirst
    exact Or.inr ⟨hclaimed, hfirst⟩

/-- A source is skipped only where the output directory is settled. -/
theorem Ready.skipped (h : Ready options run (source :: rest)) (hfs : run.batch.fs.LinkFree)
    (hdirectory : run.names.directory = options.outDir) {name : Name}
    (hname : source.fileName? = some name)
    (hchoose : run.names.choose? run.batch.fs name = none) (report : Report) :
    Ready options ⟨⟨run.batch.fs, report⟩, run.names⟩ rest := by
  by_cases hsettled : run.batch.fs.Settled options.outDir
  · exact Or.inl hsettled
  · obtain ⟨hclaimed, -⟩ := h.resolve_left hsettled
    rw [← hdirectory] at hsettled
    rw [NameAllocator.choose?_of_not_settled hfs hclaimed hsettled
      (isEntryName_of_fileName? hname)] at hchoose
    cases hchoose

/-- After an attempt to write the output directory is settled. -/
theorem settled_of_choose? (hfs : run.batch.fs.LinkFree)
    (hdirectory : run.names.directory = options.outDir) {name : Name}
    (hname : source.fileName? = some name) {destination : Path}
    (hchoose : run.names.choose? run.batch.fs name = some destination) {text : Text}
    {error? : Option Error} {after : FileSystem}
    (hwrite : run.batch.fs.overwrite destination text = ⟨error?, after⟩) :
    after.Settled options.outDir := by
  obtain ⟨given, hgiven, rfl, -⟩ :=
    NameAllocator.choose?_eq_some (isEntryName_of_fileName? hname) hchoose
  have hsettled : (run.batch.fs.overwrite (run.names.directory.child given) text).fs.Settled
      run.names.directory := settled_overwrite hfs hgiven text
  rwa [hwrite, hdirectory] at hsettled

/-- Every entry of the file system is still there, and the next path is safe. -/
structure Keeps (options : Options) (fs : FileSystem) (run : Run) (rest : List Path) : Prop where
  linkFree : run.batch.fs.LinkFree
  directory : run.names.directory = options.outDir
  keeps : fs.Extends run.batch.fs
  ready : Ready options run rest

theorem keeps_begin (hfs : fs.LinkFree) (hsafe : ¬FirstUncovers options fs sources) :
    Keeps options fs (begin options fs) sources :=
  ⟨hfs, rfl, .refl fs, Or.inr ⟨rfl, hsafe⟩⟩

/-- A source that is rendered keeps every entry. -/
theorem Keeps.step {text : Text} (h : Keeps options fs run (source :: rest))
    (hstep : Step options run source (.ok text) next) : Keeps options fs next rest := by
  cases hstep with
  | unnamed text hname => exact ⟨h.linkFree, h.directory, h.keeps, h.ready.unnamed hname _⟩
  | skipped text name hname hchoose =>
      exact ⟨h.linkFree, h.directory, h.keeps,
        h.ready.skipped h.linkFree h.directory hname hchoose _⟩
  | failed text name destination e after hname hchoose hwrite =>
      have hadds := addsDirectories_makeParents run.batch.fs destination
      rw [← overwrite_some hwrite] at hadds
      exact ⟨hadds.linkFree h.linkFree, h.directory, h.keeps.trans hadds.toExtends,
        Or.inl (settled_of_choose? h.linkFree h.directory hname hchoose hwrite)⟩
  | written text name destination after hname hchoose hwrite =>
      have hafter := linkFree_overwrite h.linkFree destination text
      rw [hwrite] at hafter
      refine ⟨hafter, h.directory, h.keeps.trans ?_,
        Or.inl (settled_of_choose? h.linkFree h.directory hname hchoose hwrite)⟩
      have hsafe := h.ready.safe h.linkFree h.directory hname hchoose
      obtain ⟨-, -, -, -, hfree⟩ :=
        NameAllocator.choose?_eq_some (isEntryName_of_fileName? hname) hchoose
      have hnew := get?_of_overwrite h.linkFree hfree hsafe hwrite
      obtain ⟨made, hparents, -, -, -, rfl⟩ := overwrite_none h.linkFree hwrite
      rw [hparents] at hnew
      exact (addsDirectories_of_makeParents hparents).toExtends.trans (.put hnew _)

/-- What is written was not there before. -/
theorem Keeps.fresh (h : Keeps options fs run (source :: rest))
    {rendered : Except FileFailure Text} {o : Output} (ho : o.WrittenBy run source rendered) :
    fs.get? (o.destination.spelled fs.workingDir) = none := by
  obtain ⟨-, -, name, after, hname, hchoose, hwrite⟩ := ho
  have hsafe := h.ready.safe h.linkFree h.directory hname hchoose
  obtain ⟨-, -, -, -, hfree⟩ :=
    NameAllocator.choose?_eq_some (isEntryName_of_fileName? hname) hchoose
  have hnew := get?_of_overwrite h.linkFree hfree hsafe hwrite
  have hadds := addsDirectories_makeParents run.batch.fs o.destination
  rw [h.keeps.workingDir] at hnew
  cases hget : fs.get? (o.destination.spelled fs.workingDir) with
  | none => rfl
  | some entry =>
      have hlater := (h.keeps.trans hadds.toExtends).keeps _ _ hget
      rw [hnew] at hlater
      cases hlater

/-- The sources that are left are files, and every entry is kept. -/
def KeepsFiles (options : Options) (fs : FileSystem) (run : Run) (rest : List Path) : Prop :=
  (∀ source ∈ rest, fs.isFile source = true) ∧ Keeps options fs run rest

theorem KeepsFiles.step (hreal : options.dryRun = false)
    (h : KeepsFiles options fs run (source :: rest)) :
    KeepsFiles options fs (writeRendered options run source (render options fs source)) rest := by
  obtain ⟨text, htext⟩ := exists_render options (h.1 source List.mem_cons_self)
  have hstep := step_writeRendered hreal run source (render options fs source)
  rw [htext] at hstep ⊢
  exact ⟨fun s hs => h.1 s (List.mem_cons_of_mem _ hs), h.2.step hstep⟩

/-- Sources that are files are written one after the other, whatever the size of the chunks. -/
theorem KeepsFiles.foldl_writeChunk (hfs : fs.LinkFree) (hreal : options.dryRun = false)
    (h : KeepsFiles options fs run sources) {size fuel : Nat} (hfuel : sources.length ≤ fuel) :
    (chunks size fuel sources).foldl (writeChunk options) run =
      oneByOne options fs run sources := by
  apply Flatten.foldl_writeChunk _ _ hfuel h
  · intro run rest hrun source hsource
    exact render_mono hfs hrun.2.keeps (hrun.1 source hsource)
  · intro run source rest hrun
    exact hrun.step hreal

/-- The run tracks its outputs, and none of them was there at the start. -/
structure Spares (options : Options) (fs : FileSystem) (run : Run) (done : List Output)
    (rest : List Path) : Prop where
  tracks : Tracks options fs run done
  keeps : Keeps options fs run rest
  fresh : ∀ o ∈ done, fs.get? (o.destination.spelled fs.workingDir) = none

/-- A source that is rendered keeps the run sparing. -/
theorem Spares.step {text : Text} (h : Spares options fs run done (source :: rest))
    (hstep : Step options run source (.ok text) next) :
    ∃ new : Option Output, Spares options fs next (done ++ new.toList) rest ∧
      ∀ o ∈ new, o.source = source ∧ o.text = text := by
  obtain ⟨new, hnew, hwritten⟩ := h.tracks.step hstep
  refine ⟨new, ⟨hnew, h.keeps.step hstep, ?_⟩, ?_⟩
  · intro o ho
    rcases List.mem_append.mp ho with ho | ho
    · exact h.fresh o ho
    · exact h.keeps.fresh (hwritten o (Option.mem_toList.mp ho))
  · intro o ho
    obtain ⟨hsource, htext, -⟩ := hwritten o ho
    exact ⟨hsource, (Except.ok.inj htext).symm⟩

end Flatten

end TreeFold
