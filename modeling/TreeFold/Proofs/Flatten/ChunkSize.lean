import TreeFold.Proofs.Flatten.Faithful
import TreeFold.Proofs.Text.Utf8

/-!
# The size of the chunks

Chunks of one read, name and write the sources strictly in turn. A larger chunk reads a source
before the sources in front of it are written. The difference shows exactly when a source that is
written in its turn reads otherwise then than at the start. Once a write was attempted, texts go
only where nothing was, so this takes a first write that uncovers a file and replaces it.
-/

namespace TreeFold.Flatten

open Component TreeFold.Path FileSystem Text

variable {options : Options} {fs early : FileSystem} {run next : Run} {source : Path}
  {before front rest sources : List Path} {done : List Output}

/-- Read, name and write each source before the next one is read. -/
def inTurn (options : Options) (run : Run) (sources : List Path) : Run :=
  sources.foldl (fun run source =>
    writeRendered options run source (render options run.batch.fs source)) run

theorem inTurn_cons (options : Options) (run : Run) (source : Path) (rest : List Path) :
    inTurn options run (source :: rest) =
      inTurn options (writeRendered options run source (render options run.batch.fs source))
        rest := rfl

theorem inTurn_append (options : Options) (run : Run) (front rest : List Path) :
    inTurn options run (front ++ rest) = inTurn options (inTurn options run front) rest :=
  List.foldl_append

theorem inTurn_concat (options : Options) (run : Run) (front : List Path) (source : Path) :
    inTurn options run (front ++ [source]) =
      writeRendered options (inTurn options run front) source
        (render options (inTurn options run front).batch.fs source) :=
  inTurn_append options run front [source]

/-- After the sources before it, a source reads otherwise than at the start, and it is written. -/
def ExposedAfter (options : Options) (fs : FileSystem) (before : List Path) (source : Path) :
    Prop :=
  render options (inTurn options (begin options fs) before).batch.fs source ≠
      render options fs source ∧
    (inTurn options (begin options fs) before).batch.report.written <
      (inTurn options (begin options fs) (before ++ [source])).batch.report.written

/-- One of the sources reads otherwise in its turn than at the start, and it is written then. -/
def Exposed (options : Options) (fs : FileSystem) (sources : List Path) : Prop :=
  ∃ before source after, sources = before ++ source :: after ∧
    ExposedAfter options fs before source

theorem exposed_append (h : Exposed options fs front) (rest : List Path) :
    Exposed options fs (front ++ rest) := by
  obtain ⟨before, source, after, rfl, hexposed⟩ := h
  exact ⟨before, source, after ++ rest, by simp, hexposed⟩

/-- The first exposed source has none in front of it. -/
theorem exists_first_exposed (h : Exposed options fs sources) :
    ∃ before source after, sources = before ++ source :: after ∧ ¬Exposed options fs before ∧
      ExposedAfter options fs before source := by
  induction hlength : sources.length using Nat.strong_induction_on generalizing sources with
  | _ length ih =>
      obtain ⟨before, source, after, rfl, hexposed⟩ := h
      by_cases hbefore : Exposed options fs before
      · have hshorter : before.length < length := by
          rw [← hlength, List.length_append, List.length_cons]
          omega
        obtain ⟨front, first, rest, rfl, hfirst⟩ := ih _ hshorter hbefore rfl
        exact ⟨front, first, rest ++ source :: after, by simp, hfirst⟩
      · exact ⟨before, source, after, rfl, hbefore, hexposed⟩

section Sizes

/-- Chunks of one take the sources in turn. -/
theorem foldl_writeChunk_single {fuel : Nat} (hfuel : sources.length ≤ fuel) (run : Run) :
    (chunks 0 fuel sources).foldl (writeChunk options) run = inTurn options run sources := by
  induction fuel generalizing run sources with
  | zero =>
      rw [List.eq_nil_of_length_eq_zero (Nat.le_zero.mp hfuel), chunks]
      rfl
  | succ fuel ih =>
      cases sources with
      | nil =>
          rw [chunks]
          rfl
      | cons source rest =>
          have hchunks :
              chunks 0 (fuel + 1) (source :: rest) = [source] :: chunks 0 fuel rest := rfl
          rw [hchunks, List.foldl_cons, writeChunk_eq, oneByOne_cons, oneByOne_nil, inTurn_cons]
          exact ih (Nat.le_of_succ_le_succ hfuel) _

theorem inChunks_one (options : Options) (fs : FileSystem) (sources : List Path) :
    inChunks options 1 fs sources = (inTurn options (begin options fs) sources).batch :=
  congrArg Run.batch (foldl_writeChunk_single (Nat.le_refl _) (begin options fs))

/-- One chunk of all sources reads all of them at the start. -/
theorem inChunks_length (options : Options) (fs : FileSystem) (sources : List Path) :
    inChunks options sources.length fs sources =
      (oneByOne options fs (begin options fs) sources).batch := by
  cases sources with
  | nil => rfl
  | cons source rest =>
      have hchunks : chunks ((source :: rest).length - 1) (source :: rest).length
          (source :: rest) = [source :: rest] := by
        rw [List.length_cons, Nat.add_sub_cancel]
        have hcut : chunks rest.length (rest.length + 1) (source :: rest) =
            (source :: rest).take (rest.length + 1) ::
              chunks rest.length rest.length ((source :: rest).drop (rest.length + 1)) := rfl
        rw [hcut, List.take_of_length_le (by simp), List.drop_of_length_le (by simp), chunks]
      rw [inChunks, hchunks, List.foldl_cons, List.foldl_nil, writeChunk_eq]
      rfl

end Sizes

/-- A source that is not written does the same whatever it reads as. -/
theorem writeRendered_congr {text : Text}
    (h : ¬run.batch.report.written <
      (writeRendered options run source (.ok text)).batch.report.written) (other : Text) :
    writeRendered options run source (.ok other) = writeRendered options run source (.ok text) := by
  cases hname : source.fileName? with
  | none => simp only [writeRendered, hname]
  | some name =>
      simp only [writeRendered, hname, NameAllocator.allocate] at h ⊢
      cases hchoose : run.names.choose? run.batch.fs name with
      | none => rfl
      | some destination =>
          simp only [hchoose, Batch.write] at h ⊢
          split at h
          · exact absurd (Nat.lt_succ_self _) h
          · rename_i hdry
            rw [if_neg hdry, if_neg hdry]
            have herror := error?_overwrite run.batch.fs destination text other
            rcases htext : run.batch.fs.overwrite destination text with ⟨_ | e, after⟩
            · rw [htext] at h
              exact absurd (Nat.lt_succ_self _) h
            · rcases hother : run.batch.fs.overwrite destination other with ⟨_ | e', after'⟩
              · rw [htext, hother] at herror
                cases herror
              · rw [htext, hother] at herror
                obtain rfl := Option.some.inj herror
                rw [overwrite_some htext, overwrite_some hother]

/-- A source that is written goes to the same place whatever it reads as. -/
theorem Tracks.output_of_lt (hreal : options.dryRun = false) (h : Tracks options fs run done)
    {text : Text} (hwritten : run.batch.report.written <
      (writeRendered options run source (.ok text)).batch.report.written) :
    ∃ destination, ∀ other, Tracks options fs (writeRendered options run source (.ok other))
      (done ++ [⟨source, destination, other⟩]) := by
  have hstep := step_writeRendered hreal run source (.ok text)
  generalize writeRendered options run source (.ok text) = next at hstep hwritten
  cases hstep with
  | unnamed text hname => exact absurd hwritten (Nat.lt_irrefl _)
  | skipped text name hname hchoose => exact absurd hwritten (Nat.lt_irrefl _)
  | failed text name destination e after hname hchoose hwrite =>
      exact absurd hwritten (Nat.lt_irrefl _)
  | written text name destination after hname hchoose hwrite =>
      refine ⟨destination, fun other => ?_⟩
      have herror := error?_overwrite run.batch.fs destination text other
      rcases hother : run.batch.fs.overwrite destination other with ⟨_ | e, after'⟩
      · simp only [writeRendered, hname, NameAllocator.allocate, hchoose, Batch.write, hreal,
          Bool.false_eq_true, if_false, hother]
        exact h.output (isEntryName_of_fileName? hname) hchoose hother
      · rw [hwrite, hother] at herror
        cases herror

/-- Outputs stay outputs, whatever the later sources read as. -/
theorem Tracks.foldl (hreal : options.dryRun = false) (h : Tracks options fs run done)
    (read : Run → Path → Except FileFailure Text) (sources : List Path) :
    ∃ more, Tracks options fs
      (sources.foldl (fun run source => writeRendered options run source (read run source)) run)
      (done ++ more) := by
  induction sources generalizing run done with
  | nil =>
      refine ⟨[], ?_⟩
      rw [List.append_nil]
      exact h
  | cons source rest ih =>
      obtain ⟨new, hnew, -⟩ := h.step (step_writeRendered hreal run source (read run source))
      obtain ⟨more, hmore⟩ := ih hnew
      rw [List.append_assoc] at hmore
      exact ⟨new.toList ++ more, hmore⟩

/-- No file has changed since the start, or the output directory is settled. -/
structure Underway (options : Options) (fs : FileSystem) (run : Run) : Prop where
  tracked : ∃ done, Tracks options fs run done
  progress : run.batch.fs = fs ∨ run.batch.fs.Settled options.outDir

namespace Underway

/-- What was a file at the start is one later. -/
theorem isFile (h : Underway options fs run) (hfs : fs.LinkFree)
    (hfile : fs.isFile source = true) : run.batch.fs.isFile source = true := by
  obtain ⟨done, htracks⟩ := h.tracked
  exact isFile_retains hfs htracks.wrote.retains hfile

theorem step {text : Text} (h : Underway options fs run)
    (hstep : Step options run source (.ok text) next) : Underway options fs next := by
  obtain ⟨done, htracks⟩ := h.tracked
  obtain ⟨new, hnew, -⟩ := htracks.step hstep
  refine ⟨⟨_, hnew⟩, ?_⟩
  cases hstep with
  | unnamed text hname => exact h.progress
  | skipped text name hname hchoose => exact h.progress
  | failed text name destination e after hname hchoose hwrite =>
      exact Or.inr
        (settled_of_choose? htracks.wrote.linkFree htracks.directory hname hchoose hwrite)
  | written text name destination after hname hchoose hwrite =>
      exact Or.inr
        (settled_of_choose? htracks.wrote.linkFree htracks.directory hname hchoose hwrite)

theorem inTurn (hfs : fs.LinkFree) (hreal : options.dryRun = false)
    (h : Underway options fs run) (hsources : ∀ source ∈ sources, fs.isFile source = true) :
    Underway options fs (inTurn options run sources) := by
  induction sources generalizing run with
  | nil => exact h
  | cons source rest ih =>
      obtain ⟨text, htext⟩ :=
        exists_render options (h.isFile hfs (hsources source List.mem_cons_self))
      have hstep := step_writeRendered hreal run source (render options run.batch.fs source)
      rw [htext] at hstep
      rw [inTurn_cons, htext]
      exact ih (h.step hstep) fun s hs => hsources s (List.mem_cons_of_mem _ hs)

end Underway

/-- Where every entry is kept, taking the sources in turn is reading all of them before. -/
theorem KeepsFiles.inTurn_eq (hearly : early.LinkFree) (hreal : options.dryRun = false)
    (h : KeepsFiles options early run sources) :
    inTurn options run sources = oneByOne options early run sources := by
  induction sources generalizing run with
  | nil => rfl
  | cons source rest ih =>
      rw [inTurn_cons, oneByOne_cons,
        render_mono hearly h.2.keeps (h.1 source List.mem_cons_self)]
      exact ih (h.step hreal)

section Real

variable (hfs : fs.LinkFree) (hreal : options.dryRun = false)
include hfs hreal

theorem underway_begin (hsources : ∀ source ∈ sources, fs.isFile source = true) :
    Underway options fs (inTurn options (begin options fs) sources) :=
  Underway.inTurn hfs hreal ⟨⟨[], .start hfs⟩, Or.inl rfl⟩ hsources

/-- As long as no source is exposed, reading all sources at the start makes no difference. -/
theorem oneByOne_eq_inTurn (hsources : ∀ source ∈ before ++ front, fs.isFile source = true)
    (hexposed : ¬Exposed options fs (before ++ front)) :
    oneByOne options fs (inTurn options (begin options fs) before) front =
      inTurn options (begin options fs) (before ++ front) := by
  induction front generalizing before with
  | nil => rw [oneByOne_nil, List.append_nil]
  | cons source front ih =>
      have hsame : writeRendered options (inTurn options (begin options fs) before) source
          (render options fs source) = inTurn options (begin options fs) (before ++ [source]) := by
        rw [inTurn_concat]
        by_cases hreads : render options (inTurn options (begin options fs) before).batch.fs
            source = render options fs source
        · rw [hreads]
        · have hfile := hsources source (by simp)
          have hunderway : Underway options fs (inTurn options (begin options fs) before) :=
            underway_begin hfs hreal fun s hs => hsources s (List.mem_append_left _ hs)
          obtain ⟨text, htext⟩ := exists_render options hfile
          obtain ⟨later, hlater⟩ := exists_render options (hunderway.isFile hfs hfile)
          rw [htext, hlater]
          apply writeRendered_congr
          intro hwritten
          rw [← hlater, ← inTurn_concat] at hwritten
          exact hexposed ⟨before, source, front, rfl, hreads, hwritten⟩
      rw [List.append_cons] at hsources hexposed ⊢
      rw [oneByOne_cons, hsame]
      exact ih hsources hexposed

/-- As long as no source is exposed, chunks of any size take the sources as if in turn. -/
theorem inChunks_eq_inTurn (hsources : ∀ source ∈ sources, fs.isFile source = true)
    (hexposed : ¬Exposed options fs sources) (size : Nat) :
    inChunks options size fs sources = (inTurn options (begin options fs) sources).batch := by
  -- The invariant: the chunks so far have done what their sources do in turn.
  have hchunk : ∀ run front rest,
      (∃ before, before ++ (front ++ rest) = sources ∧
        run = inTurn options (begin options fs) before) →
      ∃ before, before ++ rest = sources ∧
        oneByOne options run.batch.fs run front = inTurn options (begin options fs) before := by
    rintro run front rest ⟨before, rfl, rfl⟩
    refine ⟨before ++ front, List.append_assoc _ _ _, ?_⟩
    rw [← List.append_assoc] at hsources hexposed
    have hunderway : Underway options fs (inTurn options (begin options fs) before) :=
      underway_begin hfs hreal fun s hs => hsources s (by simp [hs])
    rcases hunderway.progress with hsame | hsettled
    · rw [hsame]
      exact oneByOne_eq_inTurn hfs hreal (fun s hs => hsources s (List.mem_append_left _ hs))
        fun h => hexposed (exposed_append h rest)
    · obtain ⟨done, htracks⟩ := hunderway.tracked
      have hkeeps : KeepsFiles options (inTurn options (begin options fs) before).batch.fs
          (inTurn options (begin options fs) before) front :=
        ⟨fun s hs => hunderway.isFile hfs (hsources s (by simp [hs])),
          htracks.wrote.linkFree, htracks.directory, .refl _, Or.inl hsettled⟩
      rw [inTurn_append]
      exact (hkeeps.inTurn_eq htracks.wrote.linkFree hreal).symm
  have hall : ∃ before, before ++ [] = sources ∧
      (chunks (size - 1) sources.length sources).foldl (writeChunk options) (begin options fs) =
        inTurn options (begin options fs) before :=
    chunks_invariant (P := fun run rest => ∃ before, before ++ rest = sources ∧
      run = inTurn options (begin options fs) before) hchunk (Nat.le_refl _) ⟨[], rfl, rfl⟩
  obtain ⟨before, hbefore, hrun⟩ := hall
  rw [List.append_nil] at hbefore
  rw [hbefore] at hrun
  exact congrArg Run.batch hrun

/-- With an exposed source, reading all sources at the start puts another text into its output. -/
theorem inChunks_length_ne (hsources : ∀ source ∈ sources, fs.isFile source = true)
    (hexposed : Exposed options fs sources) :
    inChunks options sources.length fs sources ≠ inChunks options 1 fs sources := by
  obtain ⟨before, source, after, rfl, hfirst, hreads, hwritten⟩ :=
    exists_first_exposed hexposed
  have hbefore : ∀ s ∈ [] ++ before, fs.isFile s = true := fun s hs => hsources s (by simp_all)
  have hfile := hsources source (by simp)
  have hunderway : Underway options fs (inTurn options (begin options fs) before) :=
    underway_begin hfs hreal hbefore
  obtain ⟨done, htracks⟩ := hunderway.tracked
  obtain ⟨text, htext⟩ := exists_render options hfile
  obtain ⟨later, hlater⟩ := exists_render options (hunderway.isFile hfs hfile)
  -- Up to the source both runs are the same, and both write it to one place.
  have hsame : oneByOne options fs (begin options fs) before =
      inTurn options (begin options fs) before := oneByOne_eq_inTurn hfs hreal hbefore hfirst
  rw [inTurn_concat, hlater] at hwritten
  obtain ⟨destination, houtput⟩ := htracks.output_of_lt hreal hwritten
  obtain ⟨more, hmore⟩ := (houtput text).foldl hreal (fun _ s => render options fs s) after
  obtain ⟨others, hothers⟩ :=
    (houtput later).foldl hreal (fun run s => render options run.batch.fs s) after
  have hmem : ∀ (o : Output) (last : List Output), o ∈ done ++ [o] ++ last := by simp
  have hstart : (oneByOne options fs (begin options fs) (before ++ source :: after)).batch.fs.get?
      (destination.spelled fs.workingDir) = some (.file (encodeUtf8 text)) := by
    rw [oneByOne_append, hsame, oneByOne_cons, htext]
    exact hmore.get?_output (hmem ⟨source, destination, text⟩ more)
  have hturn : (inTurn options (begin options fs) (before ++ source :: after)).batch.fs.get?
      (destination.spelled fs.workingDir) = some (.file (encodeUtf8 later)) := by
    rw [inTurn_append, inTurn_cons, hlater]
    exact hothers.get?_output (hmem ⟨source, destination, later⟩ others)
  intro heq
  rw [inChunks_length, inChunks_one] at heq
  rw [heq, hturn] at hstart
  apply hreads
  rw [htext, hlater, encodeUtf8_inj.mp (Entry.file.inj (Option.some.inj hstart))]

/-- Without an uncovered file no source is exposed. -/
theorem firstUncovers_of_exposed (hsources : ∀ source ∈ sources, fs.isFile source = true)
    (hexposed : Exposed options fs sources) : FirstUncovers options fs sources := by
  obtain ⟨before, source, after, rfl, hreads, -⟩ := hexposed
  by_contra hsafe
  have hkeeps : KeepsFiles options fs (begin options fs) (before ++ source :: after) :=
    ⟨hsources, keeps_begin hfs hsafe⟩
  have hbefore : KeepsFiles options fs (begin options fs) before :=
    ⟨fun s hs => hsources s (List.mem_append_left _ hs),
      keeps_begin hfs fun h => hsafe (firstUncovers_append h _)⟩
  have hlast : KeepsFiles options fs (oneByOne options fs (begin options fs) before)
      (source :: after) := oneByOne_invariant (fun _ _ _ h => h.step hreal) hkeeps
  rw [hbefore.inTurn_eq hfs hreal, render_mono hfs hlast.2.keeps (hsources source (by simp))]
    at hreads
  exact hreads rfl

end Real

theorem fs_inTurn_dry (hdry : options.dryRun = true) (run : Run) (sources : List Path) :
    (inTurn options run sources).batch.fs = run.batch.fs := by
  induction sources generalizing run with
  | nil => rfl
  | cons source rest ih => rw [inTurn_cons, ih, fs_writeRendered_dry hdry]

/-- Chunks of one take the sources in turn. The size of the chunks makes no difference exactly when
no source is exposed, and a source is exposed only where the first write uncovers a file. -/
theorem inChunks_eq_iff (hfs : fs.LinkFree)
    (hsources : ∀ source ∈ sources, fs.isFile source = true) :
    inChunks options 1 fs sources = (inTurn options (begin options fs) sources).batch ∧
      ((∀ size other, inChunks options size fs sources = inChunks options other fs sources) ↔
        ¬Exposed options fs sources) ∧
      (Exposed options fs sources → FirstUncovers options fs sources) := by
  refine ⟨inChunks_one options fs sources, ?_⟩
  cases hdry : options.dryRun with
  | false =>
      refine ⟨⟨?_, ?_⟩, firstUncovers_of_exposed hfs hdry hsources⟩
      · intro hall hexposed
        exact inChunks_length_ne hfs hdry hsources hexposed (hall sources.length 1)
      · intro hexposed size other
        rw [inChunks_eq_inTurn hfs hdry hsources hexposed size,
          inChunks_eq_inTurn hfs hdry hsources hexposed other]
  | true =>
      have hexposed : ¬Exposed options fs sources := by
        rintro ⟨before, source, after, -, hreads, -⟩
        rw [fs_inTurn_dry hdry] at hreads
        exact hreads rfl
      refine ⟨iff_of_true ?_ hexposed, fun h => absurd h hexposed⟩
      intro size other
      rw [inChunks_dry hdry, inChunks_dry hdry]

/-- The lower one of two files of one name, and then the upper one. -/
def lowerThenUpper : List Path :=
  [⟨['s', '/', 't', '/', 'a']⟩, ⟨['s', '/', 'a']⟩]

/-- Chunks of any size flatten the two files alike into a new directory. Where the way to the upper
one steps out of a new directory, it is exposed, and they do not. -/
theorem twoFiles_inChunks_eq_iff :
    (∀ size other, inChunks (numberedInto ⟨['o']⟩) size twoFiles lowerThenUpper =
        inChunks (numberedInto ⟨['o']⟩) other twoFiles lowerThenUpper) ∧
      ¬∀ size other,
        inChunks (numberedInto ⟨['n', '/', '.', '.', '/', 's']⟩) size twoFiles lowerThenUpper =
          inChunks (numberedInto ⟨['n', '/', '.', '.', '/', 's']⟩) other twoFiles
            lowerThenUpper := by
  have hfs : twoFiles.LinkFree := linkFree_of_entries (by simp [twoFiles])
  have hsources : ∀ source ∈ lowerThenUpper, twoFiles.isFile source = true := by decide
  have hname : lowerThenUpper.findSome? Path.fileName? = some ['a'] := by decide
  constructor
  · obtain ⟨-, hsame, hneeds⟩ := inChunks_eq_iff hfs hsources
    apply hsame.mpr
    intro hexposed
    obtain ⟨name, hfound, huncovers⟩ := hneeds hexposed
    obtain rfl := Option.some.inj (hname.symm.trans hfound)
    revert huncovers
    decide
  · obtain ⟨-, hsame, -⟩ := inChunks_eq_iff hfs hsources
    intro hall
    apply hsame.mp hall
    refine ⟨[⟨['s', '/', 't', '/', 'a']⟩], ⟨['s', '/', 'a']⟩, [], rfl, ?_, by decide +kernel⟩
    intro hreads
    have htext := congrArg Except.toOption hreads
    revert htext
    decide +kernel

end TreeFold.Flatten
